import FramedChannel.Proofs.WebSocket.HeaderBlock

/-!
# Reading the replies back

The two replies that accept an upgrade are header blocks, and a client that
reads one finds the headers that were meant, and behind the block the answer to
a challenge.

* `acceptFields` and `draftFields` are the headers of a reply, `acceptRead` and
  `draftRead` what a client reads.
* `readsAs_acceptReply` and `readsAs_draftReply` bring them together, for values
  that stand on one line.
* `subProtocol_acceptRead` and `subProtocol_draftRead` are the sub-protocol.
-/

namespace FramedChannel

namespace Base64

/-- The characters of an encoding are in the alphabet, or fill it up. -/
theorem mem_of_mem_encode {bytes : Bytes} {c : Char} (h : c ∈ encode bytes) :
    c ∈ '=' :: alphabet := by
  have hdigit : ∀ n, digit n ∈ '=' :: alphabet := by
    intro n
    rw [digit, List.getD_eq_getElem?_getD]
    cases hget : alphabet[n % 64]? with
    | none => exact List.mem_cons_self
    | some c => exact List.mem_cons_of_mem _ (List.mem_of_getElem? hget)
  fun_induction encode bytes with
  | case1 => cases h
  | case2 | case3 =>
    simp only [List.mem_cons, List.not_mem_nil, or_false] at h
    rcases h with rfl | rfl | rfl | rfl <;> first | exact hdigit _ | exact List.mem_cons_self
  | case4 _ _ _ _ _ ih =>
    rcases List.mem_append.1 h with hfour | hrest
    · simp only [List.mem_cons, List.not_mem_nil, or_false] at hfour
      rcases hfour with rfl | rfl | rfl | rfl <;> exact hdigit _
    · exact ih hrest

end Base64

namespace WebSocket

open Text (Unbroken)

/-! ## Headers of the replies -/

theorem unbroken_acceptKey (key : String) : Unbroken (acceptKey key).toList := by
  rw [acceptKey, String.toList_ofList]
  exact Text.unbroken_of_not_mem fun hmem =>
    absurd (Base64.mem_of_mem_encode hmem) (by decide)

/-- The headers of the reply that accepts a framed version. -/
def acceptFields (key : String) (subProtocol : Option String) : List (String × String) :=
  [("Upgrade", "WebSocket"), ("Connection", "Upgrade"), ("Sec-WebSocket-Accept", acceptKey key)] ++
    subProtocol.toList.map ("Sec-WebSocket-Protocol", ·)

/-- The headers of the reply that accepts draft-00. -/
def draftFields (request : Request) (origin subProtocol : Option String) : List (String × String) :=
  [("Upgrade", "WebSocket"), ("Connection", "Upgrade")] ++
    origin.toList.map ("Sec-WebSocket-Origin", ·) ++
    [("Sec-WebSocket-Location", "ws://" ++ request.host.getD "" ++ request.path)] ++
    subProtocol.toList.map ("Sec-WebSocket-Protocol", ·)

theorem acceptReply_eq (key : String) (subProtocol : Option String) :
    acceptReply key subProtocol =
      headerBlock ("HTTP/1.1 101 Switching Protocols" ::
        (acceptFields key subProtocol).map fieldLine) := by
  cases subProtocol <;> rfl

theorem draftReply_eq (request : Request) (origin subProtocol : Option String) (answer : Bytes) :
    draftReply request origin subProtocol answer =
      headerBlock ("HTTP/1.1 101 WebSocket Protocol Handshake" ::
        (draftFields request origin subProtocol).map fieldLine) ++ answer := by
  cases origin <;> cases subProtocol <;> rfl

/-! ## What a client reads -/

/-- What a client reads in the reply that accepts a framed version. -/
def acceptRead (key : String) (subProtocol : Option String) : Request where
  method := "HTTP/1.1"
  path := "101"
  headers :=
    [("connection", "Upgrade"), ("sec-websocket-accept", trimmed (acceptKey key))] ++
      subProtocol.toList.map (fun name => ("sec-websocket-protocol", trimmed name)) ++
      [("upgrade", "WebSocket")]

/-- What a client reads in the reply that accepts draft-00. -/
def draftRead (request : Request) (origin subProtocol : Option String) : Request where
  method := "HTTP/1.1"
  path := "101"
  headers :=
    [("connection", "Upgrade"),
      ("sec-websocket-location", trimmed ("ws://" ++ request.host.getD "" ++ request.path))] ++
      origin.toList.map (fun value => ("sec-websocket-origin", trimmed value)) ++
      subProtocol.toList.map (fun name => ("sec-websocket-protocol", trimmed name)) ++
      [("upgrade", "WebSocket")]

/-- The names of the headers, as they are read. -/
theorem readName_eq :
    readName "Upgrade" = "upgrade" ∧ readName "Connection" = "connection" ∧
      readName "Sec-WebSocket-Accept" = "sec-websocket-accept" ∧
      readName "Sec-WebSocket-Origin" = "sec-websocket-origin" ∧
      readName "Sec-WebSocket-Location" = "sec-websocket-location" ∧
      readName "Sec-WebSocket-Protocol" = "sec-websocket-protocol" := by
  decide

theorem trimmed_eq : trimmed "WebSocket" = "WebSocket" ∧ trimmed "Upgrade" = "Upgrade" := by
  decide

theorem names_acceptRead (key : String) (subProtocol : Option String) :
    (acceptRead key subProtocol).headers.Pairwise fun field field' => field.1 < field'.1 := by
  rw [← List.pairwise_map (f := Prod.fst)]
  cases subProtocol with
  | none =>
    show ["connection", "sec-websocket-accept", "upgrade"].Pairwise (· < ·)
    decide
  | some name =>
    show ["connection", "sec-websocket-accept", "sec-websocket-protocol", "upgrade"].Pairwise
      (· < ·)
    decide

theorem headers_acceptFields (key : String) (subProtocol : Option String) :
    Request.withFields [] ((acceptFields key subProtocol).map readField) =
      (acceptRead key subProtocol).headers := by
  have hread : (acceptFields key subProtocol).map readField =
      ("upgrade", "WebSocket") ::
        ([("connection", "Upgrade"), ("sec-websocket-accept", trimmed (acceptKey key))] ++
          subProtocol.toList.map fun name => ("sec-websocket-protocol", trimmed name)) := by
    cases subProtocol <;> simp [acceptFields, readField, readName_eq, trimmed_eq]
  rw [hread]
  exact Request.withFields_eq (List.perm_append_singleton _ _).symm (names_acceptRead ..)

theorem names_draftRead (request : Request) (origin subProtocol : Option String) :
    (draftRead request origin subProtocol).headers.Pairwise
      fun field field' => field.1 < field'.1 := by
  have hnames : ["connection", "sec-websocket-location", "sec-websocket-origin",
      "sec-websocket-protocol", "upgrade"].Pairwise (· < ·) := by decide
  rw [← List.pairwise_map (f := Prod.fst)]
  cases origin <;> cases subProtocol <;> exact hnames.sublist (by simp [draftRead])

theorem headers_draftFields (request : Request) (origin subProtocol : Option String) :
    Request.withFields [] ((draftFields request origin subProtocol).map readField) =
      (draftRead request origin subProtocol).headers := by
  have hread : (draftFields request origin subProtocol).map readField =
      ("upgrade", "WebSocket") :: (("connection", "Upgrade") ::
        (origin.toList.map (fun value => ("sec-websocket-origin", trimmed value)) ++
          ("sec-websocket-location", trimmed ("ws://" ++ request.host.getD "" ++ request.path)) ::
          subProtocol.toList.map fun name => ("sec-websocket-protocol", trimmed name))) := by
    cases origin <;> cases subProtocol <;>
      simp [draftFields, readField, readName_eq, trimmed_eq]
  have hperm : ∀ (first second mid : String × String) (front back : List (String × String)),
      (first :: second :: (front ++ mid :: back)).Perm
        ([second, mid] ++ front ++ back ++ [first]) := by
    intro first second mid front back
    refine ((List.perm_middle.cons second).cons first).trans ?_
    rw [List.append_assoc [second, mid]]
    exact (List.perm_append_singleton first _).symm
  rw [hread]
  exact Request.withFields_eq (hperm _ _ _ _ _) (names_draftRead ..)

theorem writable_of_mem_map {name : String} (hname : ':' ∉ name.toList ∧ '\r' ∉ name.toList)
    {value : Option String} (hvalue : ∀ text ∈ value, Unbroken text.toList) :
    ∀ field ∈ value.toList.map (name, ·), Writable field := by
  intro field hmem
  obtain ⟨text, htext, rfl⟩ := List.mem_map.1 hmem
  exact ⟨hname.1, hname.2, hvalue text (Option.mem_toList.1 htext)⟩

theorem writable_upgrade : Writable ("Upgrade", "WebSocket") :=
  ⟨by decide, by decide, by decide⟩

theorem writable_connection : Writable ("Connection", "Upgrade") :=
  ⟨by decide, by decide, by decide⟩

/-- The reply that accepts a framed version is read back, if the sub-protocol stands on a line. -/
theorem readsAs_acceptReply (key : String) {subProtocol : Option String}
    (h : ∀ name ∈ subProtocol, Unbroken name.toList) :
    ReadsAs (acceptReply key subProtocol) (acceptRead key subProtocol) [] := by
  have hname : ':' ∉ "Sec-WebSocket-Accept".toList ∧ '\r' ∉ "Sec-WebSocket-Accept".toList := by
    decide
  have haccept : Writable ("Sec-WebSocket-Accept", acceptKey key) :=
    ⟨hname.1, hname.2, unbroken_acceptKey key⟩
  have hfields : ∀ field ∈ acceptFields key subProtocol, Writable field := by
    rw [acceptFields, List.forall_mem_append, List.forall_mem_cons, List.forall_mem_cons,
      List.forall_mem_singleton]
    exact ⟨⟨writable_upgrade, writable_connection, haccept⟩,
      writable_of_mem_map (by decide) h⟩
  have hstatus : Request.requestLine "HTTP/1.1 101 Switching Protocols".toList =
      .ok ("HTTP/1.1", "101") := rfl
  have hreads := readsAs_headerBlock hstatus (by decide) hfields []
  rwa [List.append_nil, ← acceptReply_eq, headers_acceptFields] at hreads

/-- What a request says about its host and path fits on a line. -/
theorem unbroken_location {head : Bytes} {request : Request} (h : Request.parse head = .ok request) :
    Unbroken ("ws://" ++ request.host.getD "" ++ request.path).toList := by
  have hhost : Unbroken (request.host.getD "").toList := by
    cases hhost : request.host with
    | none => exact List.IsChain.nil
    | some host => exact Request.unbroken_of_header h hhost
  have hblank : ∀ c, Text.isBlank c = true → c ∉ request.path.toList := by
    intro c hc hmem
    rw [Request.not_blank_of_path h c hmem] at hc
    cases hc
  rw [String.toList_append, String.toList_append]
  refine Text.unbroken_append (Text.unbroken_append (by decide) hhost (.inl (by decide)))
    (Text.unbroken_of_not_mem (hblank _ (by decide))) (.inr fun hsome => ?_)
  exact hblank '\n' (by decide) (List.mem_of_mem_head? hsome)

/-- The reply that accepts draft-00 is read back, with the answer behind it. -/
theorem readsAs_draftReply {head : Bytes} {request : Request}
    (hparse : Request.parse head = .ok request) {origin subProtocol : Option String}
    (horigin : ∀ value ∈ origin, Unbroken value.toList)
    (h : ∀ name ∈ subProtocol, Unbroken name.toList) (answer : Bytes) :
    ReadsAs (draftReply request origin subProtocol answer) (draftRead request origin subProtocol)
      answer := by
  have hname : ':' ∉ "Sec-WebSocket-Location".toList ∧
      '\r' ∉ "Sec-WebSocket-Location".toList := by decide
  have hlocation : Writable
      ("Sec-WebSocket-Location", "ws://" ++ request.host.getD "" ++ request.path) :=
    ⟨hname.1, hname.2, unbroken_location hparse⟩
  have hfields : ∀ field ∈ draftFields request origin subProtocol, Writable field := by
    rw [draftFields, List.forall_mem_append, List.forall_mem_append, List.forall_mem_append,
      List.forall_mem_cons, List.forall_mem_singleton, List.forall_mem_singleton]
    exact ⟨⟨⟨⟨writable_upgrade, writable_connection⟩, writable_of_mem_map (by decide) horigin⟩,
      hlocation⟩, writable_of_mem_map (by decide) h⟩
  have hstatus : Request.requestLine "HTTP/1.1 101 WebSocket Protocol Handshake".toList =
      .ok ("HTTP/1.1", "101") := rfl
  have hreads := readsAs_headerBlock hstatus (by decide) hfields answer
  rwa [← draftReply_eq, headers_draftFields] at hreads

end WebSocket

end FramedChannel
