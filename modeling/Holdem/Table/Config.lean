/-!
# Forced bets and seat order

`TableConfig` is the ante, the blinds and the minimum bet of a table; every recorded hand is played
with `TableConfig.standard`, its default. `blindSeats` (`blind_seats`) and `preflopOpener`
(`preflop_opener`) say who posts the blinds and who acts first before the flop: with two seats, seat
1 posts the small blind and opens.
-/

namespace Holdem

/-- Forced bets and bet sizes of a no-limit table. -/
structure TableConfig where
  ante : Int
  smallBlind : Int
  bigBlind : Int
  minBet : Int
  deriving DecidableEq

namespace TableConfig

/-- No ante, blinds of 20 and 40, minimum bet 40. -/
def standard : TableConfig := ⟨0, 20, 40, 40⟩

end TableConfig

/-- The seats that post the small and the big blind. -/
def blindSeats (seats : Nat) : Nat × Nat := if seats = 2 then (1, 0) else (0, 1)

/-- The seat that acts first before the flop. -/
def preflopOpener (seats : Nat) : Nat := if seats = 2 then 1 else 2 % seats

end Holdem
