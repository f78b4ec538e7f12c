import SharedList.Proofs.Growth
import SharedList.Serial.Codec

/-!
# Sources are read up to their first stop

A source is asked for one delivery after the other.  It **stops** where it comes to its end or
fails, whichever is first; every source does so somewhere.  Reading asks it up to that point and
not beyond.  The hint has no say in what comes of it, and little in how much room is asked for.

* `Source.Stops` — what a source delivers, how it stops, and what is left of it then.
* `Source.exists_stops` — every source stops; `Source.Stops.hinted` — and does the same under
  every hint; `Source.Stops.mapM_deliveries` reads it off the deliveries.
* `Draft.readOn_of_stops` — reading on appends what is delivered, stops as the source does, and
  leaves what is left where the source stops.
* `Source.room_intake_le` — the room that is asked for beforehand has a bound.
* `Chain.sources_read_up_to_stop` — all of this together.
-/

set_option autoImplicit false

namespace SharedList

variable {α ε : Type}

/-! ## Where a source stops -/

/-- Asked for one delivery after the other, the source delivers these elements and then stops: it
ends (`.ok ()`) or fails.  The last component is what is left of it once it has stopped. -/
inductive Source.Stops : Source ε α → List α → Except ε Unit → Source ε α → Prop where
  | ends {s rest : Source ε α} (h : s.next = (.ok none, rest)) : Stops s [] (.ok ()) rest
  | fails {s rest : Source ε α} {e : ε} (h : s.next = (.error e, rest)) :
      Stops s [] (.error e) rest
  | delivers {s later rest : Source ε α} {x : α} {xs : List α} {stop : Except ε Unit}
      (h : s.next = (.ok (some x), later)) (hlater : Stops later xs stop rest) :
      Stops s (x :: xs) stop rest

namespace Source

/-- Every source stops: there are only so many deliveries. -/
theorem exists_stops (s : Source ε α) : ∃ xs stop rest, s.Stops xs stop rest := by
  obtain ⟨hint, deliveries⟩ := s
  induction deliveries with
  | nil => exact ⟨[], .ok (), ⟨hint, []⟩, .ends rfl⟩
  | cons delivery later ih =>
    cases delivery with
    | error e => exact ⟨[], .error e, ⟨hint, later⟩, .fails rfl⟩
    | ok x =>
      obtain ⟨xs, stop, rest, hlater⟩ := ih
      exact ⟨x :: xs, stop, rest, .delivers rfl hlater⟩

/-- What is delivered before the stop is among the deliveries. -/
theorem Stops.mem_deliveries {s rest : Source ε α} {xs : List α} {stop : Except ε Unit}
    (h : s.Stops xs stop rest) : ∀ x ∈ xs, .ok x ∈ s.deliveries := by
  induction h with
  | ends _ | fails _ => exact List.forall_mem_nil _
  | @delivers s _ _ _ _ _ h _ ih =>
    obtain ⟨hint, _ | ⟨_ | y, later⟩⟩ := s <;> cases h
    exact List.forall_mem_cons.mpr
      ⟨List.mem_cons_self, fun y hy => List.mem_cons_of_mem _ (ih y hy)⟩

/-- All deliveries together succeed just when the source ends, and fail as it does. -/
theorem Stops.mapM_deliveries {s rest : Source ε α} {xs : List α} {stop : Except ε Unit}
    (h : s.Stops xs stop rest) : s.deliveries.mapM id = stop.map fun _ => xs := by
  induction h with
  | @ends s _ h | @fails s _ _ h =>
    obtain ⟨hint, _ | ⟨_ | y, later⟩⟩ := s <;> cases h
    rfl
  | @delivers s _ _ _ _ stop h _ ih =>
    obtain ⟨hint, _ | ⟨_ | y, later⟩⟩ := s <;> cases h
    rw [List.mapM_cons, ih]
    cases stop <;> rfl

/-- What the next delivery is does not depend on the hint, which stays what it is. -/
theorem next_hinted (s : Source ε α) (hint : Option Nat) :
    ({ s with hint } : Source ε α).next = (s.next.1, { s.next.2 with hint }) := by
  obtain ⟨_, _ | ⟨_ | x, later⟩⟩ := s <;> rfl

/-- Under another hint a source delivers the same, stops in the same way, and the same is left. -/
theorem Stops.hinted {s rest : Source ε α} {xs : List α} {stop : Except ε Unit}
    (h : s.Stops xs stop rest) (hint : Option Nat) :
    ({ s with hint } : Source ε α).Stops xs stop { rest with hint } := by
  induction h with
  | ends h => exact .ends (by rw [next_hinted, h])
  | fails h => exact .fails (by rw [next_hinted, h])
  | delivers h _ ih => exact .delivers (by rw [next_hinted, h]) ih

end Source

/-! ## Reading up to the stop -/

/-- Reading on asks up to the stop: the draft takes all elements that are delivered before it. -/
theorem Draft.readOn_of_stops {s rest : Source ε α} {xs : List α} {stop : Except ε Unit}
    (h : s.Stops xs stop rest) (d : Draft α) : d.readOn s = ⟨d.extend xs, stop, rest⟩ := by
  induction h generalizing d with
  | ends h | fails h =>
    rw [readOn]
    split
    all_goals
      rename_i hnext
      cases h.symm.trans hnext
    rfl
  | delivers h _ ih =>
    rw [readOn]
    split
    all_goals
      rename_i hnext
      cases h.symm.trans hnext
    exact ih (d.push _)

namespace Source

theorem intake_of_stops {s rest : Source ε α} {xs : List α} {stop : Except ε Unit}
    (h : s.Stops xs stop rest) :
    s.intake = ⟨(Draft.withCapacity (reserve s.hint)).extend xs, stop, rest⟩ :=
  Draft.readOn_of_stops h (Draft.withCapacity (reserve s.hint))

theorem toList_intake_of_stops {s rest : Source ε α} {xs : List α} {stop : Except ε Unit}
    (h : s.Stops xs stop rest) : s.intake.draft.toList = xs := by
  rw [intake_of_stops h, Draft.toList_extend]
  rfl

/-- Whatever the source claims, and however it stops, room is asked for no more than 4096
elements. -/
theorem room_intake_le (s : Source ε α) : s.intake.draft.room ≤ 4096 := by
  obtain ⟨xs, stop, rest, hstops⟩ := s.exists_stops
  rw [intake_of_stops hstops, Draft.room_extend, Draft.room_withCapacity]
  exact Nat.min_le_right _ _

/-- Under another hint a source is taken in alike: the same elements, the same stop, and the same
deliveries left. -/
theorem intake_hinted (s : Source ε α) (hint : Option Nat) :
    let hinted : Source ε α := { s with hint }
    hinted.intake.draft.toList = s.intake.draft.toList ∧ hinted.intake.stop = s.intake.stop ∧
      hinted.intake.rest = { s.intake.rest with hint } := by
  obtain ⟨xs, stop, rest, hstops⟩ := s.exists_stops
  have hhinted := hstops.hinted hint
  refine ⟨?_, ?_, ?_⟩
  · rw [toList_intake_of_stops hstops, toList_intake_of_stops hhinted]
  · rw [intake_of_stops hstops, intake_of_stops hhinted]
  · rw [intake_of_stops hstops, intake_of_stops hhinted]

end Source

namespace Chain

/-- The chain of a source is the chain of what it delivers, if it does not fail. -/
theorem ofSource_of_stops {s rest : Source ε α} {xs : List α} {stop : Except ε Unit}
    (h : s.Stops xs stop rest) : ofSource s = stop.map fun _ => prepend xs empty := by
  have hfreeze := freeze_eq s.intake.draft
  rw [Source.toList_intake_of_stops h] at hfreeze
  unfold ofSource Source.Intake.result
  rw [← hfreeze, Source.intake_of_stops h]
  cases stop <;> rfl

/-! ### Sequences that are decoded -/

/-- The chain of elements that are yet to be made, which are made from the front before any cell of
the chain is. -/
def making (makes : List (Fresh α)) : Fresh (Chain α) :=
  makes.mapM id >>= fun row => prepend row empty

theorem make_bind_freeze (d : Draft (Fresh α)) :
    (do return ← (← d.make).freeze) = making d.toList := by
  unfold Draft.make making
  rw [Array.mapM_eq_mapM_toList, map_eq_pure_bind, bind_assoc, bind_assoc]
  refine congrArg _ (funext fun row => ?_)
  rw [pure_bind, pure_bind, freeze_eq]
  rfl

/-- The items of a sequence are decoded from the front and then made, whatever it announces. -/
theorem decode_seq (element : Decoder α) (announced : Option Nat) (items : List Serial) :
    decode element (.seq announced items) = (items.mapM element).map making := by
  obtain ⟨makes, stop, rest, hstops⟩ := Source.exists_stops ⟨announced, items.map element⟩
  have hmakes : items.mapM element = stop.map fun _ => makes := by
    rw [← hstops.mapM_deliveries, List.mapM_map]
    rfl
  rw [decode, hmakes]
  simp only [make_bind_freeze]
  unfold Source.Intake.result
  rw [← Source.toList_intake_of_stops hstops, Source.intake_of_stops hstops]
  cases stop <;> rfl

/-- What a sequence announces is not looked at when it is decoded. -/
theorem decode_announced (element : Decoder α) (announced announced' : Option Nat)
    (items : List Serial) :
    decode element (.seq announced items) = decode element (.seq announced' items) := by
  rw [decode_seq, decode_seq]

/-- **Sources are read up to their first stop.**  Every source stops.  If it comes to its end, the
chain has the elements that were delivered until then, in their order, and counts them; if it fails,
that failure is all there is, and what is left of the source is what was left when it failed, so it
was not asked again.  None of this depends on the hint, and whatever the hint is, the draft that
takes the elements in asks for room for no more than 4096 of them.  The same is said of sequences
that are decoded. -/
theorem sources_read_up_to_stop (s : Source ε α) :
    (∃ xs stop rest, s.Stops xs stop rest) ∧
    -- The end comes first
    (∀ xs rest, s.Stops xs (.ok ()) rest →
      (∃ d, s.intake = ⟨d, .ok (), rest⟩ ∧ d.toList = xs ∧ ofSource s = .ok d.freeze) ∧
      ∃ make, ofSource s = .ok make ∧ ∀ next, (make next).1.toList = xs ∧
        (make next).1.length = xs.length ∧ (make next).1.WellFormed) ∧
    -- A failure comes first
    (∀ xs e rest, s.Stops xs (.error e) rest →
      (∃ d, s.intake = ⟨d, .error e, rest⟩ ∧ d.toList = xs) ∧ ofSource s = .error e) ∧
    -- Hints
    (∀ hint, let hinted : Source ε α := { s with hint }
      ofSource hinted = ofSource s ∧ hinted.intake.draft.toList = s.intake.draft.toList ∧
        hinted.intake.stop = s.intake.stop ∧ hinted.intake.rest = { s.intake.rest with hint } ∧
        hinted.intake.draft.room ≤ 4096) ∧
    -- Sequences that are decoded
    (∀ (element : Decoder α) (announced announced' : Option Nat) (items : List Serial),
      decode element (.seq announced items) = decode element (.seq announced' items)) ∧
    ∀ (element : Decoder α) (announced : Option Nat) (items : List Serial) makes e rest,
      Source.Stops ⟨announced, items.map element⟩ makes (.error e) rest →
        decode element (.seq announced items) = .error e := by
  refine ⟨s.exists_stops, fun xs rest hends => ?_, fun xs e rest hfails => ?_,
    fun hint => ⟨?_, ?_⟩, decode_announced, fun element announced items makes e rest hfails => ?_⟩
  · have hintake := Source.intake_of_stops hends
    have hchain := ofSource_of_stops hends
    refine ⟨⟨_, hintake, Draft.toList_extend _ xs, ?_⟩, prepend xs empty, hchain, fun next => ?_⟩
    · rw [ofSource, hintake]
      rfl
    · have hbuilt := built_prepend xs empty next
      exact ⟨toList_prepend_empty xs next, hbuilt.length, hbuilt.wellFormed wellFormed_empty nofun⟩
  · exact ⟨⟨_, Source.intake_of_stops hfails, Draft.toList_extend _ xs⟩, ofSource_of_stops hfails⟩
  · obtain ⟨xs, stop, rest, hstops⟩ := s.exists_stops
    rw [ofSource_of_stops hstops, ofSource_of_stops (hstops.hinted hint)]
  · obtain ⟨hlist, hstop, hrest⟩ := s.intake_hinted hint
    exact ⟨hlist, hstop, hrest, Source.room_intake_le _⟩
  · have hmakes := hfails.mapM_deliveries
    rw [List.mapM_map] at hmakes
    rw [decode_seq]
    exact congrArg (Except.map making) hmakes

/-- A source that promises as many elements as 64 bits can count fails after two, with a third one
still to come; one that promises none comes to its end after two; and a sequence of texts fails with
its second item, which is none. -/
theorem sources_read_up_to_stop_of_two :
    let failing : Source String Nat :=
      ⟨some 18446744073709551615, [.ok 10, .ok 20, .error "torn", .ok 30]⟩
    let ending : Source String Nat := ⟨none, [.ok 10, .ok 20]⟩
    failing.Stops [10, 20] (.error "torn") ⟨some 18446744073709551615, [.ok 30]⟩ ∧
      ofSource failing = .error "torn" ∧ failing.intake.rest.deliveries = [.ok 30] ∧
      failing.intake.draft.room ≤ 4096 ∧
      ending.Stops [10, 20] (.ok ()) ⟨none, []⟩ ∧
      (∃ make, ofSource ending = .ok make ∧ (make 7).1.toList = [10, 20] ∧
        (make 7).1.length = 2) ∧
      decode Serial.decodeString (.seq (some 3) [.str "a", .null, .str "b"]) =
        .error (.invalidType .null .text) := by
  intro failing ending
  have hfails : failing.Stops [10, 20] (.error "torn") ⟨some 18446744073709551615, [.ok 30]⟩ :=
    .delivers rfl (.delivers rfl (.fails rfl))
  have hends : ending.Stops [10, 20] (.ok ()) ⟨none, []⟩ :=
    .delivers rfl (.delivers rfl (.ends rfl))
  obtain ⟨-, -, hfailure, hhints, -⟩ := sources_read_up_to_stop failing
  obtain ⟨⟨d, hintake, -⟩, hchain⟩ := hfailure _ _ _ hfails
  obtain ⟨-, -, -, -, hroom⟩ := hhints failing.hint
  obtain ⟨-, hend, -⟩ := sources_read_up_to_stop ending
  obtain ⟨-, make, hmake, hresult⟩ := hend _ _ hends
  obtain ⟨hlist, hlength, -⟩ := hresult 7
  obtain ⟨-, -, -, -, -, hdecode⟩ := sources_read_up_to_stop (⟨none, []⟩ : Source String String)
  refine ⟨hfails, hchain, by rw [hintake], hroom, hends, ⟨make, hmake, hlist, hlength⟩, ?_⟩
  exact hdecode _ _ _ _ _ _ (.delivers rfl (.fails rfl))

end Chain

end SharedList
