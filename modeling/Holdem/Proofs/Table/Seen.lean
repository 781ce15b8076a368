import Holdem.Proofs.Table.Streets

/-!
# What is seen of a table

`Table.seen` is a table without its deck, and with its cards by name or face down. A complete hand
is seen without its stacks, as they show who won. Who may do what, and how the chips go, is decided
by what is seen.

* Each step on the way to a move is one of what is seen: `opened_veiled`, `collected_veiled`,
  `carryOut_veiled`, `dealt_veiled`, `shown_veiled`. Only the payment of the pots looks at the
  cards, and its stacks are not seen (`finish_seen`).
* **`seen_after`**: tables that look alike accept or refuse moves that look alike with the same
  error, and look alike afterwards, if no deck runs out.
* `payoffs_of_seen`: complete hands that look alike, with the cards by name or with one seat left in
  the hand, have the same results.
-/

namespace Holdem

/-- A card by name, or face down. -/
def Card.veiled (named : Bool) (c : Card) : Card := if named then c else ⟨.ace, .spades⟩

/-- A seat with its cards by name or face down. -/
def Seat.veiled (named : Bool) (s : Seat) : Seat :=
  { s with hole := s.hole.map fun (first, second) => (first.veiled named, second.veiled named) }

/-- A seat without its stack. -/
def Seat.stackless (s : Seat) : Seat := { s with stack := 0 }

/-- A move with its cards by name or face down. -/
def Move.veiled (named : Bool) : Move → Move
  | .hole seat first second => .hole seat (first.veiled named) (second.veiled named)
  | .board c => .board (c.veiled named)
  | m => m

theorem Phase.name_eq_dealing {p : Phase} : p.name = .dealing ↔ p = .dealing := by
  cases p <;> simp [Phase.name]

theorem Phase.name_eq_burning {p : Phase} : p.name = .burning ↔ p = .burning := by
  cases p <;> simp [Phase.name]

theorem Phase.name_eq_revealing {p : Phase} : p.name = .revealing ↔ ∃ n, p = .revealing n := by
  cases p <;> simp [Phase.name]

namespace Table

/-- A table without its deck, with its cards by name or face down. -/
def veiled (named : Bool) (t : Table) : Table :=
  { t with
    deck := ⟨[]⟩
    seats := t.seats.map (·.veiled named)
    board := t.board.map (·.veiled named) }

/-- **What is seen of a table.** -/
def seen (named : Bool) (t : Table) : Table :=
  if t.isComplete then { t.veiled named with seats := (t.veiled named).seats.map Seat.stackless }
  else t.veiled named

variable {named : Bool} {t u : Table}

theorem seen_of_complete (h : t.phase = .complete) :
    t.seen named =
      { t.veiled named with seats := (t.veiled named).seats.map Seat.stackless } := by
  unfold seen isComplete
  rw [h]
  rfl

theorem seen_of_not_complete (h : t.phase ≠ .complete) : t.seen named = t.veiled named := by
  unfold seen isComplete
  simp [h]

theorem seen_phase (named : Bool) (t : Table) : (t.seen named).phase = t.phase := by
  unfold seen
  split <;> rfl

/-- Tables that look alike are in the same phase. -/
theorem phase_of_seen (h : t.seen named = u.seen named) : t.phase = u.phase := by
  rw [← seen_phase named t, h, seen_phase]

theorem veiled_of_seen (h : t.seen named = u.seen named) (hgo : t.phase ≠ .complete) :
    t.veiled named = u.veiled named := by
  have hgo' : u.phase ≠ .complete := phase_of_seen h ▸ hgo
  rwa [seen_of_not_complete hgo, seen_of_not_complete hgo'] at h

theorem phase_of_veiled (h : t.veiled named = u.veiled named) : t.phase = u.phase :=
  show (t.veiled named).phase = (u.veiled named).phase from congrArg phase h

theorem seen_of_veiled (h : t.veiled named = u.veiled named) : t.seen named = u.seen named := by
  unfold seen isComplete
  rw [phase_of_veiled h, h]

/-! ## Views -/

theorem map_veiled {α : Type} {g : Seat → α} (hg : ∀ s : Seat, g (s.veiled named) = g s)
    (t : Table) : (t.veiled named).seats.map g = t.seats.map g := by
  show (t.seats.map (·.veiled named)).map g = _
  rw [List.map_map]
  exact List.map_congr_left fun s _ => hg s

/-- What is seen of the seats. -/
theorem map_seen {α : Type} {g : Seat → α} (hg : ∀ s : Seat, g (s.veiled named) = g s)
    (hstackless : ∀ s : Seat, g s.stackless = g s) (t : Table) :
    (t.seen named).seats.map g = t.seats.map g := by
  unfold seen
  split
  · show ((t.veiled named).seats.map Seat.stackless).map g = _
    rw [List.map_map, ← map_veiled hg]
    exact List.map_congr_left fun s _ => hstackless s
  · exact map_veiled hg t

/-- Tables that look alike have seats that look alike. -/
theorem map_of_seen {α : Type} {g : Seat → α} (hg : ∀ s : Seat, g (s.veiled named) = g s)
    (hstackless : ∀ s : Seat, g s.stackless = g s) (h : t.seen named = u.seen named) :
    t.seats.map g = u.seats.map g := by
  rw [← map_seen hg hstackless t, h, map_seen hg hstackless]

theorem contributions_of_seen (h : t.seen named = u.seen named) :
    t.contributions = u.contributions := map_of_seen (fun _ => rfl) (fun _ => rfl) h

theorem live_of_seen (h : t.seen named = u.seen named) : t.live = u.live :=
  map_of_seen (fun _ => rfl) (fun _ => rfl) h

/-- The stacks are seen as long as the hand goes on. -/
theorem behind_of_seen (h : t.seen named = u.seen named) (hgo : t.phase ≠ .complete) :
    t.behind = u.behind := by
  have hveiled := veiled_of_seen h hgo
  unfold behind
  rw [← map_veiled (fun s => show (s.veiled named).stack = s.stack from rfl) t, hveiled,
    map_veiled fun _ => rfl]

theorem actor_of_seen (h : t.seen named = u.seen named) : t.actor = u.actor := by
  have hactors (x : Table) : (x.seen named).actors = x.actors := by
    unfold seen
    split <;> rfl
  unfold actor actor?
  rw [← hactors t, h, hactors]

theorem length_board_of_seen (h : t.seen named = u.seen named) :
    t.board.length = u.board.length := by
  have hboard (x : Table) : (x.seen named).board.length = x.board.length := by
    unfold seen
    split <;> exact List.length_map _
  rw [← hboard t, h, hboard]

theorem veiled_getElem? (t : Table) (i : Nat) :
    (t.veiled named).seats[i]? = (t.seats[i]?).map (·.veiled named) := List.getElem?_map ..

@[simp]
theorem veiled_length (t : Table) : (t.veiled named).seats.length = t.seats.length :=
  List.length_map _

@[simp]
theorem veiled_maxBet (t : Table) : (t.veiled named).maxBet = t.maxBet :=
  congrArg (·.max?.getD 0) (map_veiled (g := (·.bet)) (fun _ => rfl) t)

@[simp]
theorem veiled_liveCount (named : Bool) (t : Table) : (t.veiled named).liveCount = t.liveCount :=
  liveCount_congr (map_veiled (g := (·.inHand)) (fun _ => rfl) t)

@[simp]
theorem veiled_canAct (t : Table) (i : Nat) : (t.veiled named).canAct i = t.canAct i := by
  unfold canAct
  rw [veiled_getElem?, Option.any_map]
  rfl

@[simp]
theorem veiled_allDealt (named : Bool) (t : Table) : (t.veiled named).allDealt = t.allDealt := by
  show (t.seats.map (·.veiled named)).all (·.hole.isSome) = t.seats.all (·.hole.isSome)
  rw [List.all_map]
  congr 1
  exact funext fun s => Option.isSome_map

@[simp]
theorem veiled_rotation (t : Table) (i : Nat) : (t.veiled named).rotation i = t.rotation i := by
  unfold rotation
  rw [veiled_length]

@[simp]
theorem veiled_openingActors (named : Bool) (t : Table) :
    (t.veiled named).openingActors = t.openingActors := by
  have hopener : (t.veiled named).opener = t.opener := by
    unfold opener
    rw [veiled_length]
    rfl
  have hcan : (t.veiled named).canAct = t.canAct := funext (veiled_canAct t)
  have hbet (i : Nat) : ((t.veiled named).seats[i]?).map (·.bet) = (t.seats[i]?).map (·.bet) := by
    rw [veiled_getElem?, Option.map_map]
    rfl
  unfold openingActors
  simp only [hopener, veiled_length, veiled_rotation, hcan, hbet, veiled_maxBet]

/-- The actor sees no cards. -/
theorem veiled_viewOf (t : Table) (seat : Nat) (s : Seat) :
    (t.veiled named).viewOf seat (s.veiled named) = t.viewOf seat s := by
  unfold viewOf
  simp only [veiled_length, veiled_canAct, veiled_maxBet]
  rfl

@[simp]
theorem veiled_view (named : Bool) (t : Table) : (t.veiled named).view = t.view := by
  have hactor : (t.veiled named).actor? = t.actor? := rfl
  have hphase : (t.veiled named).phase = t.phase := rfl
  unfold view wrongPhase
  rw [hactor, hphase]
  cases t.actor? with
  | none => rfl
  | some seat =>
    simp only [veiled_getElem?]
    cases t.seats[seat]? with
    | none => rfl
    | some s => simp only [Option.map_some, veiled_viewOf]

/-! ## Steps -/

theorem map_modify_comm {α β : Type} {f : α → β} {g : α → α} {g' : β → β}
    (h : ∀ a, f (g a) = g' (f a)) (l : List α) (i : Nat) :
    (l.modify i g).map f = (l.map f).modify i g' := by
  apply List.ext_getElem?
  intro j
  rw [List.getElem?_map, List.getElem?_modify, List.getElem?_modify, List.getElem?_map]
  cases l[j]? with
  | none => rfl
  | some a => by_cases hij : i = j <;> simp [hij, h]

theorem opened_veiled (t : Table) : t.opened.veiled named = (t.veiled named).opened := by
  unfold opened
  rw [veiled_openingActors]
  rfl

theorem collected_veiled (t : Table) : t.collected.veiled named = (t.veiled named).collected := by
  unfold collected veiled
  simp only [List.map_map]
  rfl

theorem respondents_veiled (t : Table) (seat : Nat) :
    (t.veiled named).respondents seat = t.respondents seat := by
  unfold respondents
  simp only [veiled_rotation, veiled_canAct]

theorem change_veiled (named : Bool) (v : BettingView) (d : Decision) (s : Seat) :
    (d.change v s).veiled named = d.change v (s.veiled named) := by cases d <;> rfl

theorem carryOut_veiled (t : Table) (v : BettingView) (d : Decision) :
    (t.carryOut v d).veiled named = (t.veiled named).carryOut v d := by
  have hseats := map_modify_comm (change_veiled named v d) t.seats v.seat
  cases d with
  | fold =>
    exact congrArg (fun seats => { t.veiled named with seats, actors := t.actors.tail }) hseats
  | check => rfl
  | call amount =>
    exact congrArg (fun seats => { t.veiled named with seats, actors := t.actors.tail }) hseats
  | raise amount full =>
    -- the seats that answer the raise are found on the table where it was made
    have hpaid : (t.updateSeat v.seat (·.putIn (amount - v.bet))).veiled named =
        (t.veiled named).updateSeat v.seat (·.putIn (amount - v.bet)) :=
      congrArg (fun seats => { t.veiled named with seats }) hseats
    have hactors : (t.updateSeat v.seat (·.putIn (amount - v.bet))).respondents v.seat =
        ((t.veiled named).updateSeat v.seat (·.putIn (amount - v.bet))).respondents v.seat := by
      rw [← hpaid, respondents_veiled]
    cases full with
    | true =>
      exact congrArg₂ (fun seats actors =>
        { t.veiled named with
          seats, actors, minIncrement := max t.minIncrement (amount - v.maxBet), acted := []
          raiseClosed := [] }) hseats hactors
    | false =>
      exact congrArg₂ (fun seats actors =>
        { t.veiled named with seats, actors, raiseClosed := t.raiseClosed ++ t.acted })
        hseats hactors

theorem decided_veiled (t : Table) (v : BettingView) (d : Decision) :
    (t.decided v d).veiled named = (t.veiled named).decided v d := by
  unfold decided
  rw [← carryOut_veiled]
  rfl

/-- **The payment of the pots is not seen.** -/
theorem finish_seen (t : Table) :
    t.finish.1.seen named =
      { t.veiled named with
        seats := (t.veiled named).seats.map Seat.stackless, actors := [], phase := .complete } := by
  have hseats : ((t.seats.zipWith (·.addChips ·) t.winnings).map (·.veiled named)).map
      Seat.stackless = (t.seats.map (·.veiled named)).map Seat.stackless := by
    have hlen := length_winnings t
    apply List.ext_getElem
    · simp [hlen]
    · intro i h1 h2
      simp only [List.getElem_map, List.getElem_zipWith]
      rfl
  rw [seen_of_complete rfl]
  exact congrArg (fun seats =>
    { t.veiled named with seats, actors := [], phase := .complete }) hseats

theorem closeRound_seen (h : t.veiled named = u.veiled named) :
    t.closeRound.1.seen named = u.closeRound.1.seen named := by
  have hcollected : t.collected.veiled named = u.collected.veiled named := by
    rw [collected_veiled, h, ← collected_veiled]
  have hlive : t.collected.liveCount = u.collected.liveCount := by
    rw [← veiled_liveCount named, hcollected, veiled_liveCount]
  have hstreet : (t.veiled named).street = (u.veiled named).street := congrArg street h
  rw [closeRound_fst, closeRound_fst, hlive, show t.street = u.street from hstreet]
  split
  · rw [finish_seen, finish_seen, hcollected]
  · exact seen_of_veiled (congrArg (fun x : Table => { x with phase := .burning }) hcollected)

theorem openBetting_seen (h : t.veiled named = u.veiled named) :
    t.openBetting.1.seen named = u.openBetting.1.seen named := by
  have hopened : t.opened.veiled named = u.opened.veiled named := by
    rw [opened_veiled, h, ← opened_veiled]
  have hactors : t.openingActors = u.openingActors := by
    rw [← veiled_openingActors named, h, veiled_openingActors]
  rw [openBetting_fst, openBetting_fst, hactors]
  split
  · exact closeRound_seen hopened
  · exact seen_of_veiled hopened

theorem advance_seen (h : t.veiled named = u.veiled named) (v : BettingView) (d : Decision) :
    (t.advance v d).1.seen named = (u.advance v d).1.seen named := by
  have hcarry : (t.carryOut v d).veiled named = (u.carryOut v d).veiled named := by
    rw [carryOut_veiled, h, ← carryOut_veiled]
  have hdecided : (t.decided v d).veiled named = (u.decided v d).veiled named := by
    rw [decided_veiled, h, ← decided_veiled]
  have hlive : (t.carryOut v d).liveCount = (u.carryOut v d).liveCount := by
    rw [← veiled_liveCount named, hcarry, veiled_liveCount]
  have hactors : ((t.carryOut v d).veiled named).actors = ((u.carryOut v d).veiled named).actors :=
    congrArg actors hcarry
  have hout : t.FoldsOut v d ↔ u.FoldsOut v d := by
    unfold FoldsOut
    rw [hlive]
  rw [advance_fst, advance_fst, if_congr hout rfl rfl,
    show (t.carryOut v d).actors = (u.carryOut v d).actors from hactors]
  split
  · exact closeRound_seen hcarry
  · split
    · exact closeRound_seen hdecided
    · exact seen_of_veiled hdecided

theorem dealt_veiled (t : Table) (seat : Nat) (s : Seat) (first second : Card) :
    (t.dealt seat s first second).veiled named =
      (t.veiled named).dealt seat (s.veiled named) (first.veiled named) (second.veiled named) := by
  unfold dealt veiled
  simp only [List.map_set]
  rfl

theorem shown_veiled (t : Table) (c : Card) :
    (t.shown c).veiled named = (t.veiled named).shown (c.veiled named) := by
  unfold shown veiled
  simp only [List.map_append]
  rfl

/-! ## Moves -/

theorem after_of_not_due {m : Move} (h : t.phase.name ≠ m.due) :
    t.after m = .error (.wrongPhase m.operation.text t.phase.name.text) := by
  unfold after
  rw [play_of_not_due h]
  rfl

theorem after_of_transition {m : Move} {t' : Table} (h : Transition t m t') :
    t.after m = .ok t' := by
  obtain ⟨notes, hplay⟩ := play_of_transition h
  exact after_eq_ok.mpr ⟨notes, hplay⟩

theorem after_of_action {m : Move} {a : Action} (hm : m.action? = some a) (t : Table) :
    t.after m = t.view >>= fun v => (v.decide a).map fun d => (t.advance v d).1 := by
  unfold after
  rw [play_of_action hm]
  unfold act
  cases t.view with
  | error e => rfl
  | ok v => cases hd : v.decide a <;> simp [hd, Except.map, bind, Except.bind]

/-- Cards for a seat, while they are dealt. -/
theorem after_hole (hphase : t.phase = .dealing) {seat : Nat} {s : Seat}
    (hs : t.seats[seat]? = some s) (first second : Card) :
    t.after (.hole seat first second) =
      if s.hole.isSome then .error (.holeCardsAlreadyDealt seat)
      else .ok (if (t.dealt seat s first second).allDealt then
        (t.dealt seat s first second).openBetting.1 else t.dealt seat s first second) := by
  cases hhole : s.hole with
  | some cards =>
    simp [after, play, dealHole, hphase, hs, Seat.giveCards?, hhole, Except.map]
  | none =>
    by_cases hall : (t.dealt seat s first second).allDealt = true
    · rw [after_of_transition (.lastHole hphase hs hhole hall), if_pos hall]
      rfl
    · rw [after_of_transition (.hole hphase hs hhole (Bool.not_eq_true _ ▸ hall)), if_neg hall]
      rfl

theorem after_hole_nobody (hphase : t.phase = .dealing) {seat : Nat} (hs : t.seats[seat]? = none)
    (first second : Card) : t.after (.hole seat first second) = .error (.noSuchSeat seat) := by
  simp [after, play, dealHole, hphase, hs, Except.map]

theorem seen_hole (h : t.veiled named = u.veiled named) (hphase : t.phase = .dealing) (seat : Nat)
    {first second first' second' : Card} (hfirst : first.veiled named = first'.veiled named)
    (hsecond : second.veiled named = second'.veiled named) :
    (t.after (.hole seat first second)).map (seen named) =
      (u.after (.hole seat first' second')).map (seen named) := by
  have hphase' : u.phase = .dealing := phase_of_veiled h ▸ hphase
  have hseat : (u.seats[seat]?).map (·.veiled named) = (t.seats[seat]?).map (·.veiled named) := by
    rw [← veiled_getElem?, ← h, veiled_getElem?]
  cases hs : t.seats[seat]? with
  | none =>
    rw [hs] at hseat
    rw [after_hole_nobody hphase hs, after_hole_nobody hphase' (Option.map_eq_none_iff.mp hseat)]
  | some s =>
    rw [hs] at hseat
    obtain ⟨s', hs', hsame⟩ := Option.map_eq_some_iff.mp hseat
    have hhole : s'.hole.isSome = s.hole.isSome := by
      have hisSome := congrArg (·.hole.isSome) hsame
      simpa [Seat.veiled] using hisSome
    have hdealt : (t.dealt seat s first second).veiled named =
        (u.dealt seat s' first' second').veiled named := by
      rw [dealt_veiled, dealt_veiled, h, hsame, hfirst, hsecond]
    have hall : (u.dealt seat s' first' second').allDealt =
        (t.dealt seat s first second).allDealt := by
      rw [← veiled_allDealt named, ← hdealt, veiled_allDealt]
    rw [after_hole hphase hs, after_hole hphase' hs', hhole, hall]
    split
    · rfl
    · refine congrArg Except.ok ?_
      split
      · exact openBetting_seen hdealt
      · exact seen_of_veiled hdealt

theorem seen_burn (h : t.veiled named = u.veiled named) (hphase : t.phase = .burning)
    (ht : 0 < t.deck.remaining) (hu : 0 < u.deck.remaining) :
    (t.after .burn).map (seen named) = (u.after .burn).map (seen named) := by
  have hphase' : u.phase = .burning := phase_of_veiled h ▸ hphase
  obtain ⟨c, rest, hdraw, -⟩ := Deck.draw_of_remaining ht
  obtain ⟨c', rest', hdraw', -⟩ := Deck.draw_of_remaining hu
  rw [after_of_transition (.burn hphase hdraw), after_of_transition (.burn hphase' hdraw')]
  refine congrArg Except.ok (seen_of_veiled ?_)
  exact congrArg (fun x : Table => { x with phase := .revealing (boardCount (x.street + 1)) }) h

theorem seen_board (h : t.veiled named = u.veiled named) {n : Nat} (hphase : t.phase = .revealing n)
    {c c' : Card} (hcard : c.veiled named = c'.veiled named) :
    (t.after (.board c)).map (seen named) = (u.after (.board c')).map (seen named) := by
  have hphase' : u.phase = .revealing n := phase_of_veiled h ▸ hphase
  have hshown : (t.shown c).veiled named = (u.shown c').veiled named := by
    rw [shown_veiled, shown_veiled, h, hcard]
  rcases Nat.lt_or_ge 1 n with hmore | hlast
  · rw [after_of_transition (.board hphase hmore), after_of_transition (.board hphase' hmore)]
    refine congrArg Except.ok (seen_of_veiled ?_)
    exact congrArg (fun x : Table => { x with phase := .revealing (n - 1) }) hshown
  · rw [after_of_transition (.lastBoard hphase hlast),
      after_of_transition (.lastBoard hphase' hlast)]
    refine congrArg Except.ok (openBetting_seen ?_)
    exact congrArg (fun x : Table => { x with street := x.street + 1 }) hshown

theorem seen_action {m : Move} {a : Action} (hm : m.action? = some a)
    (h : t.veiled named = u.veiled named) :
    (t.after m).map (seen named) = (u.after m).map (seen named) := by
  have hview : t.view = u.view := by rw [← veiled_view named, h, veiled_view]
  rw [after_of_action hm, after_of_action hm, hview]
  cases u.view with
  | error e => rfl
  | ok v =>
    cases hd : v.decide a with
    | error e => simp [hd, bind, Except.bind, Except.map]
    | ok d =>
      simp only [bind, Except.bind, hd]
      exact congrArg Except.ok (advance_seen h v d)

/-- **Tables that look alike go on alike.** They answer moves that look alike with the same refusal,
or with tables that look alike; for a burn both need a card. -/
theorem seen_after {m m' : Move} (h : t.seen named = u.seen named)
    (hm : m.veiled named = m'.veiled named)
    (hdeck : t.phase = .burning → 0 < t.deck.remaining ∧ 0 < u.deck.remaining) :
    (t.after m).map (seen named) = (u.after m').map (seen named) := by
  have hphase := phase_of_seen h
  have hdue (x : Move) : (x.veiled named).due = x.due := by cases x <;> rfl
  have hoperation (x : Move) : (x.veiled named).operation = x.operation := by cases x <;> rfl
  by_cases hm_due : t.phase.name = m.due
  · have hgo : t.phase ≠ .complete := by
      intro hcomplete
      rw [hcomplete] at hm_due
      cases m <;> cases hm_due
    have hveiled := veiled_of_seen h hgo
    cases m with
    | hole seat first second =>
      cases m' with
      | hole seat' first' second' =>
        obtain ⟨rfl, hfirst, hsecond⟩ := Move.hole.inj hm
        exact seen_hole hveiled (Phase.name_eq_dealing.mp hm_due) seat hfirst hsecond
      | _ => cases hm
    | burn =>
      cases m' with
      | burn =>
        have hburning := Phase.name_eq_burning.mp hm_due
        exact seen_burn hveiled hburning (hdeck hburning).1 (hdeck hburning).2
      | _ => cases hm
    | board c =>
      cases m' with
      | board c' =>
        obtain ⟨n, hrevealing⟩ := Phase.name_eq_revealing.mp hm_due
        exact seen_board hveiled hrevealing (Move.board.inj hm)
      | _ => cases hm
    | fold =>
      cases m' with
      | fold => exact seen_action rfl hveiled
      | _ => cases hm
    | checkOrCall =>
      cases m' with
      | checkOrCall => exact seen_action rfl hveiled
      | _ => cases hm
    | raiseTo amount =>
      cases m' with
      | raiseTo amount' =>
        obtain rfl := Move.raiseTo.inj hm
        exact seen_action rfl hveiled
      | _ => cases hm
  · have hnot : u.phase.name ≠ m'.due := by
      rwa [← hphase, ← hdue m', ← hm, hdue]
    rw [after_of_not_due hm_due, after_of_not_due hnot, ← hphase, ← hoperation m, hm, hoperation]

/-! ## Results -/

variable {starts : List Int}

/-- The results of a complete hand, by what was won and what was put in. -/
theorem Finished.payoff_getElem? (h : Finished starts t) (i : Nat) :
    (t.seats.map (·.payoff))[i]? =
      (t.contributions[i]?).map fun put => t.winnings.getD i 0 - put := by
  unfold contributions
  rw [List.getElem?_map, List.getElem?_map]
  cases hs : t.seats[i]? with
  | none => rfl
  | some s => exact congrArg some (h.paid i s hs)

/-- A seat that is alone in the hand wins whatever the cards are. -/
theorem winnings_of_alone (ht : Finished starts t) (hone : t.liveCount = 1)
    (hlen : u.seats.length = t.seats.length) (hpots : u.pots = t.pots) :
    u.winnings = t.winnings := by
  unfold winnings Pot.award
  rw [hlen, hpots]
  refine List.map_congr_left fun seat _ => congrArg Chips.total ?_
  refine List.map_congr_left fun p hp => Pot.payout_of_eligible ?_ _ seat
  have hle := ht.length_eligible_le hp
  have hpos := List.length_pos_iff.mpr (ht.eligible_pot hp).1
  omega

/-- With the cards by name, who wins what is seen. -/
theorem winnings_of_named (h : t.seen true = u.seen true) : t.winnings = u.winnings := by
  have hcard (c : Card) : c.veiled true = c := rfl
  have hstake (s : Seat) : (s.veiled true).stake = s.stake := by
    have hhole : (s.veiled true).hole = s.hole := by
      show s.hole.map _ = _
      simp only [hcard, Option.map_id']
    unfold Seat.stake
    rw [hhole]
    rfl
  have hboard (x : Table) : (x.seen true).board = x.board := by
    have hveiled : x.board.map (·.veiled true) = x.board := by simp only [hcard, List.map_id']
    unfold seen
    split <;> exact hveiled
  refine winnings_congr (map_of_seen hstake (fun _ => rfl) h) ?_
  rw [← hboard t, h, hboard]

/-- **Complete hands that look alike** have the same results, if the cards are seen by name or one
seat is left in the hand. -/
theorem payoffs_of_seen (ht : Finished starts t) (hu : Finished starts u)
    (h : t.seen named = u.seen named) (hcards : named = true ∨ t.liveCount = 1) :
    t.payoffs = u.payoffs := by
  have hput := contributions_of_seen h
  have hlive := live_of_seen h
  have hwon : t.winnings = u.winnings := by
    rcases hcards with rfl | hone
    · exact winnings_of_named h
    · have hlen : t.seats.length = u.seats.length := by
        simpa [contributions] using congrArg List.length hput
      have hpots : t.pots = u.pots := by
        unfold pots
        rw [hput, hlive]
      exact (winnings_of_alone ht hone hlen.symm hpots.symm).symm
  have hresults : t.seats.map (·.payoff) = u.seats.map (·.payoff) := by
    apply List.ext_getElem?
    intro i
    rw [ht.payoff_getElem?, hu.payoff_getElem?, hput, hwon]
  unfold payoffs isComplete
  rw [phase_of_seen h, hresults]

end Table

end Holdem
