import Mathlib.Data.Nat.Factorial.Basic
import SharedList.Chain.Shuffle

/-!
# What rolling gives

A chunk is taken apart by remainder and quotient, so it has to lie below the product of the bounds of
the positions that it serves for.  Scaling a word comes below that product, and the correction by a
second word stays there; then every roll is at most its position.  And nothing is lost on the way:
every chunk below the product comes from some word, and every row of indices from some chunk, so that
rolling can give every row in which no index is beyond its position.

* `Dice.span`, `Dice.widen_eq` — how many positions one chunk serves for, and the product of their
  bounds.
* `Dice.Loaded` — the chunk lies below the product of the bounds that are left; `loaded_refill` and
  `roll_spec` are what one step keeps.
* `Dice.Yields` — rolls for one position after the other; `Yields.notAfter` is the run, `Yields.congr`
  says that only the words drawn matter.
* `Dice.exists_refill`, `Dice.exists_chunk`, `Dice.exists_words` — a word for every chunk, a chunk for
  every row of indices that it can serve for, and words for every row.
-/

set_option autoImplicit false

namespace SharedList

theorem wordRange_eq : wordRange = 4294967296 := rfl

theorem toNat_lt_wordRange (word : UInt32) : word.toNat < wordRange := UInt32.toNat_lt_size word

/-- The stream gives these words, one after the other, from the one numbered `start` on. -/
def WordStream.Delivers (words : WordStream) (start : Nat) (ws : List UInt32) : Prop :=
  ∀ k word, ws[k]? = some word → words (start + k) = word

theorem WordStream.delivers_append {words : WordStream} {start : Nat} {ws ws' : List UInt32}
    (h : words.Delivers start (ws ++ ws')) :
    words.Delivers start ws ∧ words.Delivers (start + ws.length) ws' := by
  constructor
  · intro k word hk
    have hlt : k < ws.length := (List.getElem?_eq_some_iff.mp hk).1
    apply h k word
    rw [List.getElem?_append_left hlt, hk]
  · intro k word hk
    rw [Nat.add_assoc]
    apply h (ws.length + k) word
    rw [List.getElem?_append_right (Nat.le_add_right _ _), Nat.add_sub_cancel_left, hk]

/-- A stream that replays words gives them all before it starts over. -/
theorem WordStream.delivers_cycle (ws : List UInt32) : (cycle ws.toArray).Delivers 0 ws := by
  intro k word hk
  obtain ⟨hlt, hword⟩ := List.getElem?_eq_some_iff.mp hk
  unfold cycle
  rw [Nat.zero_add, List.size_toArray, Nat.mod_eq_of_lt hlt]
  simp [hk]

namespace Dice

variable {words words' : WordStream} {d d' : Dice} {m i j bound chunk count : Nat}
  {indices indices' : List Nat}

/-! ## Products of consecutive bounds -/

/-- How many positions a chunk serves for, from the one with bound `m` on. -/
def span (m : Nat) : Nat := (widen m (m + 1)).2 - m

theorem mul_ascFactorial (m count : Nat) :
    m * (m + 1).ascFactorial count = m.ascFactorial (count + 1) := by
  rw [Nat.succ_ascFactorial, Nat.ascFactorial_succ]

theorem widen_ascFactorial (m count : Nat) (hlt : m.ascFactorial count < wordRange) :
    ∃ more, widen (m.ascFactorial count) (m + count) =
        (m.ascFactorial (count + more), m + (count + more)) ∧
      m.ascFactorial (count + more) < wordRange := by
  generalize hbound : m.ascFactorial count = bound at hlt
  generalize hnext : m + count = next
  induction bound, next using widen.induct generalizing count with
  | case1 bound next hwider ih =>
    have hsucc : m.ascFactorial (count + 1) = bound * next := by
      rw [Nat.ascFactorial_succ, hbound, hnext, Nat.mul_comm]
    obtain ⟨more, hwiden, hmore⟩ := ih (count + 1) hsucc hwider.2 (by omega)
    refine ⟨more + 1, ?_, ?_⟩
    · rw [widen, if_pos hwider, hwiden]
      simp [Nat.add_assoc, Nat.add_comm 1 more]
    · rwa [Nat.add_assoc, Nat.add_comm 1 more] at hmore
  | case2 bound next hstop =>
    refine ⟨0, ?_, ?_⟩
    · rw [widen, if_neg hstop, Nat.add_zero, hbound, hnext]
    · rwa [Nat.add_zero, hbound]

/-- The product is that of the bounds of all positions that the chunk serves for, at least one. -/
theorem widen_eq (hlt : m < wordRange) :
    widen m (m + 1) = (m.ascFactorial (span m), m + span m) ∧ 0 < span m ∧
      m.ascFactorial (span m) < wordRange := by
  have hone : m.ascFactorial 1 = m := by simp [Nat.ascFactorial]
  obtain ⟨more, hwiden, hmore⟩ := widen_ascFactorial m 1 (by omega)
  rw [hone] at hwiden
  have hspan : span m = 1 + more := by
    rw [span, hwiden]
    omega
  rw [hspan]
  exact ⟨hwiden, by omega, hmore⟩

/-! ## Chunks from words -/

theorem scaled_lt {word : Nat} (hbound : 0 < bound) (hword : word < wordRange) :
    word * bound / wordRange < bound := by
  apply Nat.div_lt_of_lt_mul
  exact Nat.mul_lt_mul_of_pos_right hword hbound

/-- Where a second word is drawn there is room above the chunk. -/
theorem corrected_lt {word : Nat} (hbound : bound ≤ wordRange) (hword : word < wordRange)
    (hlow : wordRange - bound < word * bound % wordRange) :
    word * bound / wordRange + 1 < bound := by
  rw [wordRange_eq] at *
  have hscaled : word * bound ≤ 4294967295 * bound := Nat.mul_le_mul_right bound (by omega)
  omega

/-- The chunk lies below the product of the bounds of the positions that it still serves for, the
first of which is `i`. -/
def Loaded (i : Nat) (d : Dice) : Prop :=
  0 < d.remaining ∧ d.chunk < (i + 1).ascFactorial d.remaining

theorem remaining_refill (words : WordStream) (d : Dice) (hi : i + 1 < wordRange) :
    (d.refill words (i + 1)).remaining = span (i + 1) := by
  obtain ⟨hwiden, -, -⟩ := widen_eq hi
  unfold refill
  simp only [hwiden, Nat.add_sub_cancel_left]
  split <;> rfl

theorem loaded_refill (words : WordStream) (d : Dice) (hi : i + 1 < wordRange) :
    (d.refill words (i + 1)).Loaded i := by
  obtain ⟨hwiden, hspan, hproduct⟩ := widen_eq hi
  have hword := toNat_lt_wordRange (words d.drawn)
  have hpos : 0 < (i + 1).ascFactorial (span (i + 1)) := Nat.ascFactorial_pos i _
  unfold Loaded
  rw [remaining_refill words d hi]
  refine ⟨hspan, ?_⟩
  unfold refill
  simp only [hwiden, Nat.add_sub_cancel_left]
  split
  · rename_i hlow
    have hroom := corrected_lt (Nat.le_of_lt hproduct) hword hlow
    dsimp only
    split <;> omega
  · exact scaled_lt hpos hword

/-! ## One roll -/

/-- The dice that serve for position `i`: a new chunk is drawn if the last one is used up. -/
def readied (words : WordStream) (i : Nat) (d : Dice) : Dice :=
  if d.remaining = 0 then d.refill words (i + 1) else d

/-- The position taken from dice that serve for position `i`, and what is left.  The last position
of a chunk takes all that is left of it. -/
def taken (i : Nat) (d : Dice) : Nat × Dice :=
  if d.remaining = 1 then (d.chunk, { d with remaining := 0 })
  else
    (d.chunk % (i + 1), { d with chunk := d.chunk / (i + 1), remaining := d.remaining - 1 })

theorem roll_eq (words : WordStream) (d : Dice) (i : Nat) :
    d.roll words i = (d.readied words i).taken i := rfl

/-- Between two rolls the chunk is used up, or it serves for the position that comes next. -/
def Ready (i : Nat) (d : Dice) : Prop := d.remaining = 0 ∨ d.Loaded i

theorem loaded_readied (words : WordStream) (h : d.Ready i) (hi : i + 1 < wordRange) :
    (d.readied words i).Loaded i := by
  unfold readied
  split
  · exact loaded_refill words d hi
  · rename_i hleft
    exact h.resolve_left hleft

theorem taken_spec (h : d.Loaded i) : (d.taken i).1 ≤ i ∧ (d.taken i).2.Ready (i + 1) := by
  obtain ⟨hpos, hchunk⟩ := h
  unfold taken
  split
  · rename_i hlast
    have hone : (i + 1).ascFactorial 1 = i + 1 := by simp [Nat.ascFactorial]
    rw [hlast, hone] at hchunk
    exact ⟨Nat.le_of_lt_succ hchunk, .inl rfl⟩
  · rename_i hmore
    have hmod : d.chunk % (i + 1) < i + 1 := Nat.mod_lt _ (Nat.succ_pos i)
    have hsucc : d.remaining = (d.remaining - 1) + 1 := by omega
    rw [hsucc, ← mul_ascFactorial] at hchunk
    refine ⟨Nat.le_of_lt_succ hmod, .inr ⟨?_, ?_⟩⟩
    · show 0 < d.remaining - 1
      omega
    · show d.chunk / (i + 1) < (i + 1 + 1).ascFactorial (d.remaining - 1)
      exact Nat.div_lt_of_lt_mul hchunk

/-- **One roll** gives a position that is not after `i`, and leaves dice for the next one. -/
theorem roll_spec (words : WordStream) (h : d.Ready i) (hi : i + 1 < wordRange) :
    (d.roll words i).1 ≤ i ∧ (d.roll words i).2.Ready (i + 1) := by
  rw [roll_eq]
  exact taken_spec (loaded_readied words h hi)

/-! ## One roll after the other -/

/-- From `d` on, the positions from `i` on get these indices, and then the dice are `d'`. -/
inductive Yields (words : WordStream) : Nat → Dice → List Nat → Dice → Prop where
  | nil (i : Nat) (d : Dice) : Yields words i d [] d
  | cons {i j : Nat} {d left d' : Dice} {indices : List Nat} (hroll : d.roll words i = (j, left))
      (hrest : Yields words (i + 1) left indices d') : Yields words i d (j :: indices) d'

/-- No index lies beyond its position, the first of which is `i`. -/
def NotAfter (i : Nat) (indices : List Nat) : Prop := ∀ p ∈ indices.zipIdx i, p.1 ≤ p.2

theorem notAfter_nil (i : Nat) : NotAfter i [] := by simp [NotAfter]

theorem notAfter_cons_iff : NotAfter i (j :: indices) ↔ j ≤ i ∧ NotAfter (i + 1) indices := by
  simp [NotAfter]

theorem notAfter_append_iff : NotAfter i (indices ++ indices') ↔
    NotAfter i indices ∧ NotAfter (i + indices.length) indices' := by
  simp only [NotAfter, List.zipIdx_append, List.mem_append]
  constructor
  · intro h
    exact ⟨fun p hp => h p (.inl hp), fun p hp => h p (.inr hp)⟩
  · rintro ⟨hleft, hright⟩ p (hp | hp)
    · exact hleft p hp
    · exact hright p hp

theorem exists_yields (words : WordStream) (count i : Nat) (d : Dice) :
    ∃ indices d', indices.length = count ∧ Yields words i d indices d' := by
  induction count generalizing i d with
  | zero => exact ⟨[], d, rfl, .nil i d⟩
  | succ count ih =>
    obtain ⟨indices, d', hlength, hrest⟩ := ih (i + 1) (d.roll words i).2
    exact ⟨(d.roll words i).1 :: indices, d', by simp [hlength], .cons rfl hrest⟩

namespace Yields

theorem append {middle : Dice} (first : Yields words i d indices middle)
    (second : Yields words (i + indices.length) middle indices' d') :
    Yields words i d (indices ++ indices') d' := by
  induction first with
  | nil => exact second
  | cons hroll _ ih =>
    apply Yields.cons hroll
    apply ih
    rwa [List.length_cons, Nat.add_comm _ 1, ← Nat.add_assoc] at second

/-- What is yielded is what the dice are rolled for. -/
theorem rolls_eq (h : Yields words i d indices d') (before : List Nat) :
    Dice.rolls words indices.length i d before = (before.reverse ++ indices, d') := by
  induction h generalizing before with
  | nil => simp [rolls]
  | cons hroll _ ih =>
    rw [List.length_cons, rolls, hroll]
    simp only [ih, List.reverse_cons, List.append_assoc, List.singleton_append]

/-- **Every roll** of a run is at most its position. -/
theorem notAfter (h : Yields words i d indices d') (hd : d.Ready i)
    (hlast : i + indices.length < wordRange) : NotAfter i indices := by
  induction h with
  | nil => exact notAfter_nil _
  | cons hroll _ ih =>
    rw [List.length_cons] at hlast
    obtain ⟨hle, hready⟩ := roll_spec words hd (by omega)
    rw [hroll] at hle hready
    exact notAfter_cons_iff.mpr ⟨hle, ih hready (by omega)⟩

end Yields

/-! ## Only the words that are drawn matter -/

theorem drawn_lt_refill (words : WordStream) (m : Nat) (d : Dice) :
    d.drawn < (d.refill words m).drawn := by
  unfold refill
  dsimp only
  split <;> simp

theorem refill_congr
    (h : ∀ k, d.drawn ≤ k → k < (d.refill words m).drawn → words' k = words k) :
    d.refill words' m = d.refill words m := by
  have hfirst : words' d.drawn = words d.drawn :=
    h d.drawn (Nat.le_refl _) (drawn_lt_refill words m d)
  unfold refill at h ⊢
  rw [hfirst]
  dsimp only at h ⊢
  split
  · rename_i hlow
    rw [if_pos hlow] at h
    have hsecond : words' (d.drawn + 1) = words (d.drawn + 1) :=
      h (d.drawn + 1) (Nat.le_succ _) (Nat.lt_succ_self _)
    rw [hsecond]
  · rfl

theorem drawn_taken (i : Nat) (d : Dice) : (d.taken i).2.drawn = d.drawn := by
  unfold taken
  split <;> rfl

theorem drawn_le_roll (words : WordStream) (i : Nat) (d : Dice) :
    d.drawn ≤ (d.roll words i).2.drawn := by
  rw [roll_eq, drawn_taken, readied]
  split
  · exact Nat.le_of_lt (drawn_lt_refill words (i + 1) d)
  · exact Nat.le_refl _

theorem roll_congr
    (h : ∀ k, d.drawn ≤ k → k < (d.roll words i).2.drawn → words' k = words k) :
    d.roll words' i = d.roll words i := by
  rw [roll_eq, drawn_taken] at h
  rw [roll_eq, roll_eq]
  congr 1
  unfold readied at h ⊢
  split
  · rename_i hused
    rw [if_pos hused] at h
    exact refill_congr h
  · rfl

namespace Yields

theorem drawn_le (h : Yields words i d indices d') : d.drawn ≤ d'.drawn := by
  induction h with
  | nil => exact Nat.le_refl _
  | @cons i _ d _ _ _ hroll _ ih =>
    have hle := drawn_le_roll words i d
    rw [hroll] at hle
    exact Nat.le_trans hle ih

/-- Another stream with the same words where they are drawn yields the same. -/
theorem congr (h : Yields words i d indices d')
    (hwords : ∀ k, d.drawn ≤ k → k < d'.drawn → words' k = words k) :
    Yields words' i d indices d' := by
  induction h with
  | nil => exact .nil _ _
  | @cons i _ d _ _ _ hroll hrest ih =>
    have hle := drawn_le_roll words i d
    have hlater := hrest.drawn_le
    rw [hroll] at hle
    refine .cons ?_ (ih fun k hge hlt => hwords k (Nat.le_trans hle hge) hlt)
    rw [← hroll]
    apply roll_congr
    intro k hge hlt
    rw [hroll] at hlt
    exact hwords k hge (Nat.lt_of_lt_of_le hlt hlater)

end Yields

/-! ## Every row of indices can be rolled -/

/-- Every value below the product is what some word is scaled to. -/
theorem exists_word (hbound : bound ≤ wordRange) (hchunk : chunk < bound) :
    ∃ word : UInt32, word.toNat * bound / wordRange = chunk := by
  -- The first word whose multiple of the bound reaches the chunk's share of the words.
  let word := (chunk * wordRange + (bound - 1)) / bound
  have hdiv := Nat.div_add_mod (chunk * wordRange + (bound - 1)) bound
  have hmod := Nat.mod_lt (chunk * wordRange + (bound - 1)) (Nat.zero_lt_of_lt hchunk)
  have hword : bound * word + (chunk * wordRange + (bound - 1)) % bound =
      chunk * wordRange + (bound - 1) := hdiv
  have hlt : word < UInt32.size := by
    have htop : chunk * wordRange ≤ (bound - 1) * wordRange :=
      Nat.mul_le_mul_right wordRange (by omega)
    have hbelow : bound * word < bound * wordRange := by
      rw [Nat.sub_mul, Nat.one_mul] at htop
      have hle : wordRange ≤ bound * wordRange := Nat.le_mul_of_pos_left wordRange (by omega)
      omega
    exact Nat.lt_of_mul_lt_mul_left hbelow
  refine ⟨UInt32.ofNat word, ?_⟩
  rw [UInt32.toNat_ofNat_of_lt' hlt, Nat.mul_comm]
  apply Nat.div_eq_of_lt_le
  · omega
  · rw [Nat.succ_mul]
    omega

/-- Every chunk is drawn by one word or by two.  Where a second word is drawn, it is one that
corrects nothing. -/
theorem exists_refill (hi : i + 1 < wordRange)
    (hchunk : chunk < (i + 1).ascFactorial (span (i + 1))) :
    ∃ ws : List UInt32, ∀ (words : WordStream) (d : Dice), words.Delivers d.drawn ws →
      d.refill words (i + 1) = ⟨chunk, span (i + 1), d.drawn + ws.length⟩ := by
  obtain ⟨hwiden, -, hproduct⟩ := widen_eq hi
  obtain ⟨word, hword⟩ := exists_word (Nat.le_of_lt hproduct) hchunk
  by_cases hlow : word.toNat * (i + 1).ascFactorial (span (i + 1)) % wordRange >
      wordRange - (i + 1).ascFactorial (span (i + 1))
  · refine ⟨[word, 0], fun words d hwords => ?_⟩
    have hfirst : words d.drawn = word := hwords 0 word rfl
    have hsecond : words (d.drawn + 1) = 0 := hwords 1 0 rfl
    have hlt : word.toNat * (i + 1).ascFactorial (span (i + 1)) % wordRange < wordRange :=
      Nat.mod_lt _ (by decide)
    unfold refill
    simp only [hwiden, hfirst, hsecond, Nat.add_sub_cancel_left, hword, if_pos hlow]
    rw [if_neg]
    · rfl
    · simp only [UInt32.toNat_zero, Nat.zero_mul, Nat.zero_div, Nat.add_zero]
      omega
  · refine ⟨[word], fun words d hwords => ?_⟩
    have hfirst : words d.drawn = word := hwords 0 word rfl
    unfold refill
    simp only [hwiden, hfirst, Nat.add_sub_cancel_left, hword, if_neg hlow]
    rfl

/-- An index is taken out of a chunk that was put together from it and the rest. -/
theorem roll_digit (words : WordStream) (drawn : Nat) (hj : j ≤ i) (chunk : Nat)
    (hcount : 0 < count) :
    roll words ⟨j + (i + 1) * chunk, count + 1, drawn⟩ i = (j, ⟨chunk, count, drawn⟩) := by
  have hmod : (j + (i + 1) * chunk) % (i + 1) = j := by
    rw [Nat.add_mul_mod_self_left, Nat.mod_eq_of_lt (by omega)]
  have hdiv : (j + (i + 1) * chunk) / (i + 1) = chunk := by
    rw [Nat.add_mul_div_left _ _ (Nat.succ_pos i), Nat.div_eq_of_lt (by omega), Nat.zero_add]
  have hmore : count ≠ 0 := Nat.ne_of_gt hcount
  simp [roll_eq, readied, taken, hmod, hdiv, hmore]

/-- Every row of indices that one chunk can serve for is taken from some chunk. -/
theorem exists_chunk (count : Nat) (hindices : NotAfter i indices)
    (hlength : indices.length ≤ count) :
    ∃ chunk, chunk < (i + 1).ascFactorial count ∧ ∀ (words : WordStream) (drawn : Nat),
      ∃ d', Yields words i ⟨chunk, count, drawn⟩ indices d' ∧ d'.drawn = drawn ∧
        (indices.length = count → d'.remaining = 0) := by
  induction count generalizing i indices with
  | zero =>
    obtain rfl : indices = [] := List.length_eq_zero_iff.mp (by omega)
    exact ⟨0, by simp, fun words drawn => ⟨_, .nil _ _, rfl, fun _ => rfl⟩⟩
  | succ count ih =>
    cases indices with
    | nil =>
      refine ⟨0, Nat.ascFactorial_pos i _, fun words drawn => ⟨_, .nil _ _, rfl, fun h => ?_⟩⟩
      cases h
    | cons j indices =>
      rw [List.length_cons] at hlength
      obtain ⟨hj, hrest⟩ := notAfter_cons_iff.mp hindices
      obtain ⟨chunk, hchunk, hyields⟩ := ih hrest (by omega)
      refine ⟨j + (i + 1) * chunk, ?_, fun words drawn => ?_⟩
      · rw [← mul_ascFactorial]
        have hle : (i + 1) * (chunk + 1) ≤ (i + 1) * (i + 1 + 1).ascFactorial count :=
          Nat.mul_le_mul_left (i + 1) hchunk
        rw [Nat.mul_succ] at hle
        omega
      · rcases Nat.eq_zero_or_pos count with rfl | hpos
        · -- The last position takes the chunk as it is.
          obtain rfl : indices = [] := List.length_eq_zero_iff.mp (by omega)
          obtain rfl : chunk = 0 := by simpa using hchunk
          exact ⟨⟨j, 0, drawn⟩, .cons (by simp [roll_eq, readied, taken]) (.nil _ _), rfl,
            fun _ => rfl⟩
        · obtain ⟨d', hd', hdrawn, hused⟩ := hyields words drawn
          exact ⟨d', .cons (roll_digit words drawn hj chunk hpos) hd', hdrawn,
            fun h => hused (by simpa using h)⟩

/-- Dice without a chunk roll as those for which one has been drawn. -/
theorem yields_of_refilled (hd : d.remaining = 0) (hi : i + 1 < wordRange)
    (h : Yields words i (d.refill words (i + 1)) indices d') (hne : indices ≠ []) :
    Yields words i d indices d' := by
  have hleft : (d.refill words (i + 1)).remaining ≠ 0 :=
    Nat.ne_of_gt (loaded_refill words d hi).1
  cases h with
  | nil => exact absurd rfl hne
  | cons hroll hrest =>
    refine .cons ?_ hrest
    rw [roll_eq, readied, if_neg hleft] at hroll
    rw [roll_eq, readied, if_pos hd, hroll]

/-- The indices for which one chunk serves are rolled by the words that draw it. -/
theorem exists_words_of_chunk (hindices : NotAfter i indices) (hne : indices ≠ [])
    (hlength : indices.length ≤ span (i + 1)) (hi : i + 1 < wordRange) :
    ∃ ws : List UInt32, ∀ (words : WordStream) (d : Dice),
      d.remaining = 0 → words.Delivers d.drawn ws →
        ∃ d', Yields words i d indices d' ∧ d'.drawn = d.drawn + ws.length ∧
          (indices.length = span (i + 1) → d'.remaining = 0) := by
  obtain ⟨chunk, hchunk, hserved⟩ := exists_chunk (span (i + 1)) hindices hlength
  obtain ⟨ws, hrefill⟩ := exists_refill hi hchunk
  refine ⟨ws, fun words d hd hwords => ?_⟩
  obtain ⟨d', hyields, hdrawn, hused⟩ := hserved words (d.drawn + ws.length)
  rw [← hrefill words d hwords] at hyields
  exact ⟨d', yields_of_refilled hd hi hyields hne, hdrawn, hused⟩

/-- Every row of indices of which none is beyond its position is rolled by some words. -/
theorem exists_words (hindices : NotAfter i indices) (hlast : i + indices.length < wordRange) :
    ∃ ws : List UInt32, ∀ (words : WordStream) (d : Dice),
      (indices ≠ [] → d.remaining = 0) → words.Delivers d.drawn ws →
        ∃ d', Yields words i d indices d' ∧ d'.drawn = d.drawn + ws.length := by
  -- The induction is on how many indices are left; each step takes those of one chunk.
  generalize hcount : indices.length = count at hlast
  induction count using Nat.strongRecOn generalizing i indices with
  | ind count ih =>
    by_cases hne : indices = []
    · subst hne
      exact ⟨[], fun words d _ _ => ⟨d, .nil i d, rfl⟩⟩
    · have hpos : 0 < indices.length := List.length_pos_iff.mpr hne
      have hi : i + 1 < wordRange := by omega
      have hspan : 0 < span (i + 1) := (widen_eq hi).2.1
      have hsplit := List.take_append_drop (span (i + 1)) indices
      have htake : (indices.take (span (i + 1))).length = min (span (i + 1)) indices.length :=
        List.length_take
      have hdrop : (indices.drop (span (i + 1))).length = indices.length - span (i + 1) :=
        List.length_drop
      rw [← hsplit, notAfter_append_iff] at hindices
      obtain ⟨hfront, hback⟩ := hindices
      obtain ⟨ws, hfirst⟩ := exists_words_of_chunk hfront (List.length_pos_iff.mp (by omega))
        (by omega) hi
      obtain ⟨ws', hsecond⟩ := ih _ (by omega) hback rfl (by omega)
      refine ⟨ws ++ ws', fun words d hd hwords => ?_⟩
      obtain ⟨hws, hws'⟩ := WordStream.delivers_append hwords
      obtain ⟨middle, hmiddle, hdrawn, hused⟩ := hfirst words d (hd hne) hws
      have hready : indices.drop (span (i + 1)) ≠ [] → middle.remaining = 0 := by
        intro hmore
        have hleft := List.length_pos_iff.mpr hmore
        apply hused
        omega
      rw [← hdrawn] at hws'
      obtain ⟨d', hlater, hdrawn'⟩ := hsecond words middle hready hws'
      refine ⟨d', ?_, ?_⟩
      · rw [← hsplit]
        exact hmiddle.append hlater
      · rw [hdrawn', hdrawn, List.length_append, Nat.add_assoc]

end Dice

end SharedList
