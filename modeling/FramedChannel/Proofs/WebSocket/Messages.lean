import FramedChannel.Proofs.WebSocket.Reference

/-!
# Messages in the context

How the context of a connection stands for the message that is open, and that
its rules for frames are those of `Rules`.

* `Context.Sound` is the invariant of a context, and `openMessage` the message
  that it stands for.
* `refuses_iff` compares the rules for headers.
* `resolve_of_read` compares what becomes of a payload.
-/

namespace FramedChannel.WebSocket

/-- The rules for frames of a connection with the given options and limit. -/
def rulesOf (options : WebSocketOptions) (limit : Nat) : Rules :=
  ⟨options.requireMask, limit⟩

namespace Context

/-! ## The invariant -/

/-- The context belongs to a connection with the given options and limit, and the fragments are
those of the message that is open. -/
structure Sound (options : WebSocketOptions) (limit : Nat) (context : Context) : Prop where
  options_eq : context.options = options
  limit_eq : context.maxMessageLength = limit
  closed : context.messageOp = none → context.fragments = []
  count : context.fragmentsLength = context.fragments.flatten.length

/-- The message whose fragments are being collected, as far as it came. -/
def openMessage (context : Context) : Option Message :=
  context.messageOp.map fun op => ⟨op, context.fragments.flatten⟩

variable {options : WebSocketOptions} {limit : Nat} {context after : Context}
  {first second : UInt8} {length : Nat} {mask : Option MaskKey}

theorem Sound.negotiated (h : Sound options limit context) (version : Version)
    (subProtocol : Option String) : Sound options limit (context.negotiated version subProtocol) :=
  ⟨h.options_eq, h.limit_eq, h.closed, h.count⟩

theorem Sound.of_beginFrame (h : Sound options limit context)
    (hbegin : context.beginFrame first second length mask = .ok after) :
    Sound options limit after := by
  obtain ⟨_, _, _, op, _, _, rfl⟩ := beginFrame_eq_ok_iff.1 hbegin
  exact ⟨h.options_eq, h.limit_eq, h.closed, h.count⟩

/-- The current frame has its place: it continues a message only if one is open. -/
def Placed (context : Context) : Prop :=
  context.op = .continuation → context.messageOp ≠ none

theorem placed_of_beginFrame (hbegin : context.beginFrame first second length mask = .ok after) :
    after.Placed := by
  obtain ⟨_, _, _, op, _, hfault, rfl⟩ := beginFrame_eq_ok_iff.1 hbegin
  intro hop hclosed
  obtain rfl : op = .continuation := hop
  have hstray : context.dataFault .continuation length = some .strayContinuation :=
    if_pos ⟨rfl, hclosed⟩
  rw [frameFault, if_neg (by decide), hstray] at hfault
  cases hfault

theorem Sound.resolve (h : Sound options limit context) (hplaced : context.Placed)
    (payload : Bytes) : Sound options limit (context.resolve payload).1 := by
  unfold Context.resolve
  split
  · exact h
  · split
    · refine ⟨h.options_eq, h.limit_eq, ?_, ?_⟩
      · dsimp only
        split
        · rename_i hop
          exact fun hnone => absurd hnone (hplaced hop)
        · exact fun hnone => by cases hnone
      · simp [h.count]
    · cases hop : context.messageOp with
      | none =>
        dsimp only
        split <;> exact h
      | some op =>
        dsimp only
        split <;> exact ⟨h.options_eq, h.limit_eq, fun _ => rfl, rfl⟩

theorem length_openMessage (h : Sound options limit context) :
    Rules.lengthOf context.openMessage = context.fragmentsLength := by
  unfold openMessage Rules.lengthOf
  cases hop : context.messageOp with
  | none =>
    rw [h.count, h.closed hop]
    rfl
  | some op =>
    rw [h.count]
    rfl

/-! ## Headers -/

/-- The context whose current frame is the given one. -/
def begun (context : Context) (frame : WireFrame) (op : OpCode) : Context :=
  { context with op, fin := frame.fin, payloadLength := frame.length, mask := frame.mask }

variable {frame : WireFrame} {op : OpCode}

theorem Sound.begun (h : Sound options limit context) (frame : WireFrame) (op : OpCode) :
    Sound options limit (context.begun frame op) :=
  ⟨h.options_eq, h.limit_eq, h.closed, h.count⟩

theorem frameFault_eq_none_iff (h : Sound options limit context) (fin : Bool) :
    context.frameFault op fin length = none ↔
      (op.isControl = true → fin = true ∧ length ≤ 125) ∧
        (op.isControl = false →
          ¬ (op = .continuation ∧ context.openMessage = none) ∧
            ¬ (op ≠ .continuation ∧ context.openMessage ≠ none) ∧
            ¬ (rulesOf options limit).Exceeds (context.fragmentsLength + length)) := by
  have hopened : context.openMessage = none ↔ context.messageOp = none := by
    simp [openMessage]
  unfold frameFault
  cases hcontrol : op.isControl with
  | true =>
    grind [controlFault, maxControlPayload]
  | false =>
    simp only [dataFault, h.limit_eq, hopened, Rules.Exceeds, rulesOf]
    split_ifs <;> simp_all

/-- A frame is refused for what its header breaks, or as a control frame that has more bytes than a
message may have. -/
theorem refuses_iff (h : Sound options limit context) (op : OpCode) :
    (rulesOf options limit).Refuses context.openMessage op frame ↔
      ¬ (frame.first &&& reservedBits = 0 ∧
          ¬ (context.options.requireMask = true ∧ frame.second &&& maskBit = 0) ∧
          frame.length < 1 <<< 63 ∧ context.frameFault op frame.fin frame.length = none) ∨
        op.isControl = true ∧ (rulesOf options limit).Exceeds frame.length := by
  rw [frameFault_eq_none_iff h, WireFrame.second_and_maskBit, h.options_eq, Rules.Refuses,
    length_openMessage h]
  generalize 1 <<< 63 = bound
  generalize (rulesOf options limit).Exceeds frame.length = long
  generalize (rulesOf options limit).Exceeds (context.fragmentsLength + frame.length) = total
  have hdata : op.isControl = false →
      (op ≠ .continuation ↔ op = .text ∨ op = .binary) := by
    cases op <;> decide
  have hcontrol : op.isControl = true → op ≠ .continuation ∧ op ≠ .text ∧ op ≠ .binary := by
    cases op <;> decide
  cases hop : op.isControl with
  | true =>
    obtain ⟨hcontinuation, htext, hbinary⟩ := hcontrol hop
    simp only [hcontinuation, htext, hbinary, rulesOf]
    grind
  | false =>
    simp only [← hdata hop, rulesOf, Option.isSome_iff_ne_none]
    grind

theorem refuses_of_exceeds (opened : Option Message) (op : OpCode) {rules : Rules}
    (h : rules.Exceeds frame.length) : rules.Refuses opened op frame := by
  have htotal : rules.Exceeds (Rules.lengthOf opened + frame.length) :=
    h.mono (Nat.le_add_left _ _)
  cases hop : op.isControl <;> simp [Rules.Refuses, hop, h, htotal]

theorem read_eq_refused {opened : Option Message} {rules : Rules} (hop : frame.op? = some op)
    (h : rules.Refuses opened op frame) : rules.read opened frame = .refused := by
  rw [Rules.read, hop]
  exact if_pos h

theorem read_of_beginFrame_eq_error {violation : Violation} (h : Sound options limit context)
    (hbegin : context.beginFrame frame.first frame.second frame.length frame.mask =
      .error violation) :
    (rulesOf options limit).read context.openMessage frame = .refused := by
  cases hop : frame.op? with
  | none =>
    rw [Rules.read, hop]
  | some op =>
    have hrefuses : (rulesOf options limit).Refuses context.openMessage op frame := by
      rw [refuses_iff h]
      left
      rintro ⟨hreserved, hmask, hlength, hfault⟩
      have hok : context.beginFrame frame.first frame.second frame.length frame.mask =
          .ok (context.begun frame op) :=
        beginFrame_eq_ok_iff.2 ⟨hreserved, hmask, hlength, op, hop, hfault, rfl⟩
      rw [hok] at hbegin
      cases hbegin
    exact read_eq_refused hop hrefuses

/-- Behind an accepted header, a frame can still be refused as a control frame that has more bytes
than a message may have. -/
theorem begun_of_beginFrame_eq_ok (h : Sound options limit context)
    (hbegin : context.beginFrame frame.first frame.second frame.length frame.mask = .ok after) :
    ∃ op, frame.op? = some op ∧ frame.length < 1 <<< 63 ∧ after = context.begun frame op ∧
      ((rulesOf options limit).Refuses context.openMessage op frame ↔
        op.isControl = true ∧ (rulesOf options limit).Exceeds frame.length) := by
  obtain ⟨hreserved, hmask, hlength, op, hop, hfault, rfl⟩ := beginFrame_eq_ok_iff.1 hbegin
  refine ⟨op, hop, hlength, rfl, ?_⟩
  rw [refuses_iff h]
  exact or_iff_right fun hnot => hnot ⟨hreserved, hmask, hlength, hfault⟩

/-! ## Payloads -/

theorem continues_iff (hnot : ¬ (rulesOf options limit).Refuses context.openMessage op frame)
    (hcontrol : op.isControl = false) : op = .continuation ↔ context.messageOp ≠ none := by
  have hopened : context.openMessage = none ↔ context.messageOp = none := by
    simp [openMessage]
  have hdata : op ≠ .continuation → op = .text ∨ op = .binary := by
    cases op <;> revert hcontrol <;> decide
  rw [Ne, ← hopened]
  constructor
  · exact fun hop hnone => hnot (by simp [Rules.Refuses, hop, hnone])
  · intro hsome
    by_contra hop
    refine hnot ?_
    simp [Rules.Refuses, hdata hop, Option.isSome_iff_ne_none, hsome]

theorem resolve_control (hcontrol : op.isControl = true) (payload : Bytes) :
    (context.begun frame op).resolve payload =
      (context.begun frame op, .ok (some (.message ⟨op, payload⟩))) :=
  if_pos hcontrol

/-- A frame that does not end its message makes the open message longer, or opens one. -/
theorem resolve_fragment (h : Sound options limit context) (hcontrol : op.isControl = false)
    (hcontinues : op = .continuation ↔ context.messageOp ≠ none) (hfin : frame.fin = false)
    (payload : Bytes) :
    ((context.begun frame op).resolve payload).2 = .ok none ∧
      ((context.begun frame op).resolve payload).1.openMessage =
        some (Rules.grow context.openMessage op payload) := by
  have hresolve : (context.begun frame op).resolve payload =
      ({ context.begun frame op with
          messageOp := if op = .continuation then context.messageOp else some op
          fragments := context.fragments ++ [payload]
          fragmentsLength := context.fragmentsLength + payload.length }, .ok none) := by
    simp [resolve, begun, hcontrol, hfin]
  rw [hresolve]
  refine ⟨rfl, ?_⟩
  cases hop : context.messageOp with
  | none =>
    have hfirst : ¬ op = .continuation := by simp [hcontinues, hop]
    simp [openMessage, Rules.grow, hop, hfirst, h.closed hop]
  | some opened =>
    have hnext : op = .continuation := by simp [hcontinues, hop]
    simp [openMessage, Rules.grow, hop, hnext]

/-- A frame that ends its message completes it, unless it is a text that is none. -/
theorem resolve_final (context : Context) (hcontrol : op.isControl = false)
    (hfin : frame.fin = true) (payload : Bytes) :
    ((context.begun frame op).resolve payload).2 =
        (let message := Rules.grow context.openMessage op payload
        if message.op = .text ∧ Utf8.isText message.data = false then
          .error (.protocol .messageNotText)
        else .ok (some (.message message))) ∧
      ((context.begun frame op).resolve payload).1.openMessage = none := by
  obtain ⟨behind, hclosed, hresolve⟩ : ∃ behind : Context, behind.openMessage = none ∧
      (context.begun frame op).resolve payload =
        if (Rules.grow context.openMessage op payload).op = .text ∧
            !Utf8.isText (Rules.grow context.openMessage op payload).data then
          (behind, .error (.protocol .messageNotText))
        else (behind, .ok (some (.message (Rules.grow context.openMessage op payload)))) := by
    cases hop : context.messageOp with
    | none =>
      refine ⟨context.begun frame op, ?_, ?_⟩
      · simp [openMessage, begun, hop]
      · simp [resolve, begun, hcontrol, hfin, Rules.grow, openMessage, hop]
    | some opened =>
      refine ⟨{ context.begun frame op with
        messageOp := none, fragments := [], fragmentsLength := 0 }, rfl, ?_⟩
      simp [resolve, begun, hcontrol, hfin, Rules.grow, openMessage, hop]
  rw [hresolve]
  simp only [Bool.not_eq_true']
  split_ifs
  · exact ⟨rfl, hclosed⟩
  · exact ⟨rfl, hclosed⟩

/-- What becomes of the payload of an accepted frame is what its reading says. -/
theorem resolve_of_read (h : Sound options limit context) (hop : frame.op? = some op)
    (hnot : ¬ (rulesOf options limit).Refuses context.openMessage op frame) :
    match (rulesOf options limit).read context.openMessage frame with
    | .refused =>
      ∃ violation, ((context.begun frame op).resolve frame.payload).2 = .error (.protocol violation)
    | .taken message opened =>
      ((context.begun frame op).resolve frame.payload).2 = .ok (message.map .message) ∧
        ((context.begun frame op).resolve frame.payload).1.openMessage = opened := by
  rw [Rules.read, hop]
  dsimp only
  rw [if_neg hnot]
  cases hcontrol : op.isControl with
  | true =>
    rw [if_pos rfl, resolve_control hcontrol]
    exact ⟨rfl, rfl⟩
  | false =>
    rw [if_neg (by simp)]
    cases hfin : frame.fin with
    | false =>
      rw [if_pos rfl]
      exact resolve_fragment h hcontrol (continues_iff hnot hcontrol) hfin frame.payload
    | true =>
      obtain ⟨hresult, hclosed⟩ :=
        context.resolve_final hcontrol hfin frame.payload
      rw [if_neg (by simp)]
      dsimp only at hresult
      split at hresult
      · rename_i htext
        rw [if_pos htext]
        exact ⟨_, hresult⟩
      · rename_i htext
        rw [if_neg htext]
        exact ⟨hresult, hclosed⟩

end Context

end FramedChannel.WebSocket
