import FramedChannel.Channel.Step

/-!
# Calls that are dropped

An application may drop a call of a send in any state, and then the call never
returns.  `Channel.move` is a step of a channel or such a drop, and
`Channel.moves` makes any number of them.  Replies of the decoder are sent by
the fill loop, which drops none.
-/

namespace FramedChannel

/-- A step of a channel, or the end of a call that does not return. -/
inductive Move where
  | act (action : Action)
  /-- A call of a send is dropped. -/
  | giveUp (call : Nat)
  deriving DecidableEq, Repr

/-- Whether a call is dropped. -/
def Move.isGiveUp : Move → Bool
  | giveUp _ => true
  | act _ => false

namespace Channel

variable {σ π : Type} [PackageDecoder σ π]

/-- What a move does to a channel. -/
def move (c : Channel σ π) : Move → Option (List (Event π) × Channel σ π)
  | .act action => c.step action
  | .giveUp call => some ([], { c with outbox := c.outbox.giveUp call })

/-- What some moves do, one after another, with all that can be seen of them. -/
def moves (c : Channel σ π) : List Move → Option (List (Event π) × Channel σ π)
  | [] => some ([], c)
  | move :: rest => do
    let (first, c) ← c.move move
    let (more, c) ← c.moves rest
    some (first ++ more, c)

/-- Without a call that is dropped, the moves are the steps. -/
theorem moves_map_act (c : Channel σ π) (actions : List Action) :
    c.moves (actions.map .act) = c.steps actions := by
  induction actions generalizing c with
  | nil => rfl
  | cons action rest ih =>
    simp only [List.map_cons, moves, steps, move]
    cases c.step action with
    | none => rfl
    | some result => simp [ih]

end Channel

end FramedChannel
