import FramedChannel.Error

/-!
# Closing

How a channel closes, in three steps that need not come at once.

* A reason is recorded.  Only the first one counts.
* The channel is cancelled: its loops begin to end, and new sends are refused.
* The close signal fires, once, with the recorded reason.
-/

namespace FramedChannel

/-- How far a channel is with closing. -/
structure Closing where
  recorded : Option CloseReason := none
  cancelled : Bool := false
  /-- The value of the close signal, once it fired. -/
  signal : Option CloseReason := none
  /-- How often the signal changed. -/
  changes : Nat := 0
  deriving DecidableEq, Repr

namespace Closing

/-- Records a reason, unless there is one. -/
def record (c : Closing) (reason : CloseReason) : Closing :=
  { c with recorded := some (c.recorded.getD reason) }

@[simp] theorem record_record (c : Closing) (first second : CloseReason) :
    (c.record first).record second = c.record first := by
  simp [record]

/-- Begins to close. -/
def cancel (c : Closing) : Closing :=
  { c with cancelled := true }

/-- Fires the signal, unless it fired.  The recorded reason is read and made public in one step, so
no other reason can come between the two. -/
def finish (c : Closing) : Closing :=
  match c.signal with
  | some _ => c
  | none => { c with signal := some (c.recorded.getD .unknown), changes := c.changes + 1 }

theorem finish_of_signal {c : Closing} {reason : CloseReason} (h : c.signal = some reason) :
    c.finish = c := by
  simp [finish, h]

@[simp] theorem signal_finish (c : Closing) :
    c.finish.signal = some (c.signal.getD (c.recorded.getD .unknown)) := by
  unfold finish
  split <;> simp_all

end Closing

end FramedChannel
