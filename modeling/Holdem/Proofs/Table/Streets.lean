import Holdem.Proofs.Except
import Holdem.Proofs.Sequence.Shape
import Holdem.Proofs.Table.Phases

/-!
# Streets on a table

`Table.playAction`, `Table.playStreet` and `Table.playStreets` play the streets of a sequence on a
table. They do nothing but moves that are accepted, so they carry a run on (`Played.playStreets`).

A table is never told the name of a board street: it burns a card and shows the cards one by one,
and counts for itself how many make up the street. What the name has to do with that street is the
number of cards alone.

* A street begins in its phase (`phase_of_playStreet`), and none while a table waits for board cards.
* So if a hand goes on to its end, each board street shows exactly the cards that the table waits
  for, and takes it to the next street (`playStreet_board`); betting leaves street and board as they
  are. The street of the table counts the board streets (`street_of_playStreets`).
* Three cards are the flop, one card the turn or the river (`flop_iff`).

Result: **`board_of_split`**, which says of any board street of a hand that it is dealt as a whole
(`DealsStreet`).
-/

namespace Holdem

namespace Table

/-- The table after a move, without its notes. -/
def after (t : Table) (m : Move) : Except TableError Table := (t.play m).map Prod.fst

/-- The move that an action comes to when a seat acts: all in is a raise to the chips behind. -/
def moveOf (t : Table) (seat : Nat) : Action → Except TableError Move
  | .fold => .ok .fold
  | .checkOrCall => .ok .checkOrCall
  | .raiseTo amount => .ok (.raiseTo amount)
  | .allIn =>
    match t.behind[seat]? with
    | some stack => .ok (.raiseTo stack)
    | none => .error (.noSuchSeat seat)

/-- Plays one action of a sequence. -/
def playAction (t : Table) (a : Action) : Except TableError Table := do
  let seat ← t.actor
  let m ← t.moveOf seat a
  t.after m

/-- Plays one street of a sequence. -/
def playStreet (t : Table) : Street → Except TableError Table
  | .board _ cards => (Move.burn :: cards.map .board).foldlM after t
  | .betting actions => actions.foldlM playAction t

/-- Plays some streets of a sequence. -/
def playStreets (t : Table) (streets : List Street) : Except TableError Table :=
  streets.foldlM playStreet t

/-! ## What they lead to -/

variable {t t' : Table} {m : Move} {a : Action}

theorem after_eq_ok : t.after m = .ok t' ↔ ∃ notes, t.play m = .ok (t', notes) := by
  unfold after
  rw [map_eq_ok]
  constructor
  · rintro ⟨⟨_, notes⟩, h, rfl⟩
    exact ⟨notes, h⟩
  · rintro ⟨notes, h⟩
    exact ⟨_, h, rfl⟩

/-- A move that is accepted is one of the transitions. -/
theorem transition_of_after (h : t.after m = .ok t') : Transition t m t' := by
  obtain ⟨notes, hplay⟩ := after_eq_ok.mp h
  exact transition_of_play hplay

theorem moveOf_eq_ok {seat : Nat} (h : t.moveOf seat a = .ok m) :
    ∃ a', m.action? = some a' := by
  unfold moveOf at h
  cases a with
  | fold =>
    cases h
    exact ⟨_, rfl⟩
  | checkOrCall =>
    cases h
    exact ⟨_, rfl⟩
  | raiseTo amount =>
    cases h
    exact ⟨_, rfl⟩
  | allIn =>
    simp only at h
    split at h
    · cases h
      exact ⟨_, rfl⟩
    · cases h

/-- An action that is played is a move of the seat that has to act. -/
theorem playAction_eq_ok (h : t.playAction a = .ok t') :
    ∃ seat m a', t.actor = .ok seat ∧ m.action? = some a' ∧ t.after m = .ok t' := by
  obtain ⟨seat, hseat, hrest⟩ := bind_eq_ok.mp h
  obtain ⟨m, hm, hafter⟩ := bind_eq_ok.mp hrest
  obtain ⟨a', ha'⟩ := moveOf_eq_ok hm
  exact ⟨seat, m, a', hseat, ha', hafter⟩

/-- A board street is a burn card, and then its cards. -/
theorem playStreet_board_eq_ok {kind : BoardKind} {cards : List Card} :
    t.playStreet (.board kind cards) = .ok t' ↔
      ∃ t₁, t.after .burn = .ok t₁ ∧ (cards.map Move.board).foldlM after t₁ = .ok t' := by
  show (Move.burn :: cards.map .board).foldlM after t = _ ↔ _
  rw [List.foldlM_cons]
  exact bind_eq_ok

theorem playStreet_betting_eq_ok {actions : List Action} :
    t.playStreet (.betting (a :: actions)) = .ok t' ↔
      ∃ t₁, t.playAction a = .ok t₁ ∧ t₁.playStreet (.betting actions) = .ok t' := by
  show (a :: actions).foldlM playAction t = _ ↔ _
  rw [List.foldlM_cons]
  exact bind_eq_ok

theorem playStreets_append (t : Table) (streets rest : List Street) :
    t.playStreets (streets ++ rest) = t.playStreets streets >>= (·.playStreets rest) :=
  List.foldlM_append

theorem playStreets_cons (t : Table) (street : Street) (rest : List Street) :
    t.playStreets (street :: rest) = t.playStreet street >>= (·.playStreets rest) :=
  List.foldlM_cons

theorem playStreets_cons_eq_ok {street : Street} {rest : List Street} :
    t.playStreets (street :: rest) = .ok t' ↔
      ∃ t₁, t.playStreet street = .ok t₁ ∧ t₁.playStreets rest = .ok t' := by
  rw [playStreets_cons]
  exact bind_eq_ok

/-! ## Streets that begin -/

/-- An action is played while seats bet. -/
theorem phase_of_playAction (h : t.playAction a = .ok t') : t.phase = .betting := by
  obtain ⟨_, m, a', _, ha', hafter⟩ := playAction_eq_ok h
  cases transition_of_after hafter with
  | act hphase => exact hphase
  | hole => cases ha'
  | lastHole => cases ha'
  | burn => cases ha'
  | board => cases ha'
  | lastBoard => cases ha'

/-- What a table is doing when a street begins. -/
def startOf : Street → Phase
  | .board .. => .burning
  | .betting _ => .betting

/-- **A street begins in its phase**: betting while seats bet, and a board street while the table
waits for a burn card. -/
theorem phase_of_playStreet {street : Street} (hshaped : street.Shaped)
    (h : t.playStreet street = .ok t') : t.phase = startOf street := by
  cases street with
  | board kind cards =>
    obtain ⟨t₁, hburn, -⟩ := playStreet_board_eq_ok.mp h
    cases transition_of_after hburn with
    | burn hphase => exact hphase
    | act _ hm => cases hm
  | betting actions =>
    obtain ⟨a, actions, rfl⟩ := List.exists_cons_of_ne_nil hshaped
    obtain ⟨t₁, haction, -⟩ := playStreet_betting_eq_ok.mp h
    exact phase_of_playAction haction

end Table

namespace Played

variable {config : TableConfig} {starts : List Int} {t t' : Table}

theorem create {seed : UInt64} (h : Table.create config starts seed = .ok t) :
    Played config starts t := ⟨[], .create h⟩

theorem after {m : Move} (ht : Played config starts t) (h : t.after m = .ok t') :
    Played config starts t' := by
  obtain ⟨turns, hrun⟩ := ht
  obtain ⟨notes, hplay⟩ := Table.after_eq_ok.mp h
  exact ⟨_, hrun.move hplay⟩

theorem playAction {a : Action} (ht : Played config starts t) (h : t.playAction a = .ok t') :
    Played config starts t' := by
  obtain ⟨_, _, _, _, _, hafter⟩ := Table.playAction_eq_ok h
  exact ht.after hafter

theorem playStreet {street : Street} (ht : Played config starts t)
    (h : t.playStreet street = .ok t') : Played config starts t' := by
  cases street with
  | board kind cards => exact foldlM_keeps (fun _ _ _ hb hstep => hb.after hstep) ht h
  | betting actions => exact foldlM_keeps (fun _ _ _ hb hstep => hb.playAction hstep) ht h

/-- **Streets that are played carry the run on.** -/
theorem playStreets {streets : List Street} (ht : Played config starts t)
    (h : t.playStreets streets = .ok t') : Played config starts t' :=
  foldlM_keeps (fun _ _ _ hb hstep => hb.playStreet hstep) ht h

end Played

namespace Table

variable {t t' : Table}

/-! ## Street and board -/

/-- The street, and the cards that lie on the table. -/
def laid (t : Table) : Nat × List Card := (t.street, t.board)

theorem closeRound_laid (t : Table) : t.closeRound.1.laid = t.laid := by
  rw [closeRound_fst]
  split <;> rfl

theorem openBetting_laid (t : Table) : t.openBetting.1.laid = t.laid := by
  rw [openBetting_fst]
  split
  · exact closeRound_laid _
  · rfl

theorem advance_laid (t : Table) (v : BettingView) (d : Decision) :
    (t.advance v d).1.laid = t.laid := by
  have hcarry : (t.carryOut v d).laid = t.laid := by
    unfold laid
    rw [carryOut_street, carryOut_board]
  rcases t.advance_cases v d with ⟨-, heq⟩ | ⟨-, -, heq⟩ | ⟨-, -, heq⟩
  · rw [heq, closeRound_laid, hcarry]
  · rw [heq, closeRound_laid]
    exact hcarry
  · rw [heq]
    exact hcarry

/-- **What is not a card of the board** leaves street and board alone. -/
theorem laid_of_after {m : Move} (h : t.after m = .ok t') (hboard : ∀ c, m ≠ .board c) :
    t'.laid = t.laid := by
  cases transition_of_after h with
  | hole => rfl
  | lastHole => exact openBetting_laid _
  | burn => rfl
  | board => exact absurd rfl (hboard _)
  | lastBoard => exact absurd rfl (hboard _)
  | act => exact advance_laid _ _ _

theorem laid_of_playAction {a : Action} (h : t.playAction a = .ok t') : t'.laid = t.laid := by
  obtain ⟨_, m, a', _, ha', hafter⟩ := playAction_eq_ok h
  refine laid_of_after hafter ?_
  rintro c rfl
  cases ha'

/-! ## Board streets -/

/-- The table waits for board cards. -/
def Revealing (t : Table) : Prop := ∃ n, t.phase = .revealing n

/-- No street begins while board cards are to come: a hand that goes on to a table which does not
wait for any did not wait before. -/
theorem not_revealing_of_playStreets {streets : List Street}
    (hshaped : ∀ street ∈ streets, street.Shaped) (h : t.playStreets streets = .ok t')
    (hend : ¬ t'.Revealing) : ¬ t.Revealing := by
  cases streets with
  | nil =>
    cases h
    exact hend
  | cons street rest =>
    obtain ⟨t₁, hfirst, -⟩ := playStreets_cons_eq_ok.mp h
    have hphase := phase_of_playStreet (hshaped street List.mem_cons_self) hfirst
    rintro ⟨n, hn⟩
    rw [hphase] at hn
    cases street <;> cases hn

/-- **Board cards, until none is awaited**: as many as the table waited for, and they take it to the
next street. -/
theorem laid_of_cards {cards : List Card} {n : Nat} (hphase : t.phase = .revealing n) (hn : 1 ≤ n)
    (h : (cards.map Move.board).foldlM after t = .ok t') (hend : ¬ t'.Revealing) :
    cards.length = n ∧ t'.laid = (t.street + 1, t.board ++ cards) := by
  induction cards generalizing t n with
  | nil =>
    cases h
    exact absurd ⟨n, hphase⟩ hend
  | cons c cards ih =>
    rw [List.map_cons, List.foldlM_cons] at h
    obtain ⟨t₁, hshow, hrest⟩ := bind_eq_ok.mp h
    cases transition_of_after hshow with
    | act _ hm => cases hm
    | board hp hmore =>
      obtain rfl := Phase.revealing.inj (hphase.symm.trans hp)
      obtain ⟨hlen, hlaid⟩ := ih rfl (Nat.le_sub_one_of_lt hmore) hrest
      refine ⟨?_, ?_⟩
      · rw [List.length_cons, hlen]
        omega
      · rw [hlaid]
        show (t.street + 1, t.board ++ [c] ++ cards) = _
        rw [List.append_assoc]
        rfl
    | lastBoard hp hlast =>
      obtain rfl := Phase.revealing.inj (hphase.symm.trans hp)
      cases cards with
      | nil =>
        cases hrest
        exact ⟨(Nat.le_antisymm hlast hn).symm, openBetting_laid _⟩
      | cons c' cards =>
        -- The card before was the last of the street, so one more is refused.
        rw [List.map_cons, List.foldlM_cons] at hrest
        obtain ⟨t₂, hshow', -⟩ := bind_eq_ok.mp hrest
        cases transition_of_after hshow' with
        | act _ hm => cases hm
        | board hp' => exact absurd hp' (openBetting_not_revealing _ _)
        | lastBoard hp' => exact absurd hp' (openBetting_not_revealing _ _)

/-- **A board street** after which no card is awaited is the next street of the table. -/
theorem playStreet_board {starts : List Int} {kind : BoardKind} {cards : List Card}
    (hinv : Inv starts t) (h : t.playStreet (.board kind cards) = .ok t') (hend : ¬ t'.Revealing) :
    t.street < river ∧ cards.length = boardCount (t.street + 1) ∧
      t'.laid = (t.street + 1, t.board ++ cards) := by
  obtain ⟨t₁, hburn, hrest⟩ := playStreet_board_eq_ok.mp h
  cases transition_of_after hburn with
  | act _ hm => cases hm
  | burn hphase hdraw =>
    obtain ⟨-, -, -, -, hstreet, -⟩ := hinv.of_burning hphase
    have hshown := laid_of_cards rfl (boardCount_pos hstreet) hrest hend
    exact ⟨hstreet, hshown⟩

/-- Betting leaves street and board as they are. -/
theorem playStreet_betting {actions : List Action} (h : t.playStreet (.betting actions) = .ok t') :
    t'.laid = t.laid :=
  foldlM_keeps (P := fun x : Table => x.laid = t.laid)
    (fun _ _ _ hb hstep => (laid_of_playAction hstep).trans hb) rfl h

/-- The street of a table says how many board streets were played, if no card is awaited. -/
theorem street_of_playStreets {config : TableConfig} {starts : List Int} {streets : List Street}
    (ht : Played config starts t) (hshaped : ∀ street ∈ streets, street.Shaped)
    (h : t.playStreets streets = .ok t') (hend : ¬ t'.Revealing) :
    t'.street = t.street + (streets.filterMap Street.board?).length := by
  induction streets generalizing t with
  | nil =>
    cases h
    rfl
  | cons street rest ih =>
    obtain ⟨t₁, hfirst, hrest⟩ := playStreets_cons_eq_ok.mp h
    have hshaped' : ∀ s ∈ rest, s.Shaped := fun s hs => hshaped s (List.mem_cons_of_mem street hs)
    rw [ih (ht.playStreet hfirst) hshaped' hrest]
    cases street with
    | board kind cards =>
      obtain ⟨turns, hrun⟩ := ht
      obtain ⟨-, -, hlaid⟩ := playStreet_board hrun.inv hfirst
        (not_revealing_of_playStreets hshaped' hrest hend)
      have hstreet : t₁.street = t.street + 1 := congrArg Prod.fst hlaid
      rw [hstreet]
      simp only [List.filterMap_cons, Street.board?, List.length_cons]
      omega
    | betting actions =>
      have hstreet : t₁.street = t.street := congrArg Prod.fst (playStreet_betting hfirst)
      rw [hstreet]
      simp only [List.filterMap_cons, Street.board?]

/-! ## Names -/

/-- A street of the table, by its number, has the cards of a flop if it is the first. -/
theorem flop_iff {kind : BoardKind} {street : Nat} (hstreet : street < river)
    (hcount : kind.cardCount = boardCount (street + 1)) : kind = .flop ↔ street = 0 := by
  unfold river at hstreet
  match street, hstreet with
  | 0, _ => cases kind <;> simp_all [BoardKind.cardCount, boardCount]
  | 1, _ => cases kind <;> simp_all [BoardKind.cardCount, boardCount]
  | 2, _ => cases kind <;> simp_all [BoardKind.cardCount, boardCount]

/-- A board street that is dealt as a whole: with its cards the board goes to the next street, which
asks for as many; and that is the first street, the flop of the table, exactly if it is named so. -/
structure DealsStreet (t : Table) (kind : BoardKind) (cards : List Card) (t' : Table) : Prop where
  played : t.playStreet (.board kind cards) = .ok t'
  street_lt : t.street < river
  street_eq : t'.street = t.street + 1
  board_eq : t'.board = t.board ++ cards
  count : cards.length = boardCount t'.street
  flop : kind = .flop ↔ t'.street = 1

/-- A board street after which no card is awaited is dealt as a whole. -/
theorem dealsStreet_of_playStreet {starts : List Int} {kind : BoardKind} {cards : List Card}
    (hinv : Inv starts t) (hshaped : (Street.board kind cards).Shaped)
    (h : t.playStreet (.board kind cards) = .ok t') (hend : ¬ t'.Revealing) :
    t.DealsStreet kind cards t' := by
  obtain ⟨hriver, hcount, hlaid⟩ := playStreet_board hinv h hend
  have hstreet : t'.street = t.street + 1 := congrArg Prod.fst hlaid
  refine ⟨h, hriver, hstreet, congrArg Prod.snd hlaid, ?_, ?_⟩
  · rw [hstreet, hcount]
  · rw [flop_iff hriver (hshaped.symm.trans hcount), hstreet]
    omega

/-- **A board street of a hand that is played to its end** is dealt as a whole, on the table that the
streets before it lead to. -/
theorem board_of_split {config : TableConfig} {starts : List Int} {before after : List Street}
    {kind : BoardKind} {cards : List Card} (ht : Played config starts t) (hzero : t.street = 0)
    (hshaped : ∀ street ∈ before ++ .board kind cards :: after, street.Shaped)
    (h : t.playStreets (before ++ .board kind cards :: after) = .ok t') (hend : ¬ t'.Revealing) :
    ∃ t₁ t₂, t.playStreets before = .ok t₁ ∧
      t₁.street = (before.filterMap Street.board?).length ∧ t₁.DealsStreet kind cards t₂ := by
  rw [playStreets_append] at h
  obtain ⟨t₁, hbefore, hrest⟩ := bind_eq_ok.mp h
  obtain ⟨t₂, hboard, hafter⟩ := playStreets_cons_eq_ok.mp hrest
  have hshaped₁ : ∀ street ∈ before, street.Shaped := fun street hmem =>
    hshaped street (List.mem_append_left _ hmem)
  have hshaped₂ : ∀ street ∈ .board kind cards :: after, street.Shaped := fun street hmem =>
    hshaped street (List.mem_append_right _ hmem)
  have hend₁ := not_revealing_of_playStreets hshaped₂ hrest hend
  have hend₂ := not_revealing_of_playStreets
    (fun street hmem => hshaped₂ street (List.mem_cons_of_mem _ hmem)) hafter hend
  obtain ⟨turns, hrun⟩ := ht.playStreets hbefore
  have hstreet := street_of_playStreets ht hshaped₁ hbefore hend₁
  rw [hzero, Nat.zero_add] at hstreet
  exact ⟨t₁, t₂, hbefore, hstreet, dealsStreet_of_playStreet hrun.inv
    (hshaped₂ _ List.mem_cons_self) hboard hend₂⟩

end Table

end Holdem
