import FramedChannel.Proofs.WebSocket.Resumable

/-!
# Segments of a WebSocket

A WebSocket reads the same from every cut of the bytes that it receives.  With
`Decoder.resumable` there is nothing left to show but that a connection begins
in a state that is ready and has nothing to do.
-/

namespace FramedChannel.WebSocket

open Reassembly

/-- The reassembly of a connection of which nothing was read. -/
def fresh (options : WebSocketOptions) (limit : Nat) : Reassembly Decoder :=
  .of (Decoder.of options) limit

theorem ready_fresh (options : WebSocketOptions) (limit : Nat) :
    Decoder.Ready (fresh options limit).decoder (fresh options limit).pending.bytes :=
  ⟨rfl, Terminated.ready_of_scanned_eq_zero (by decide) rfl⟩

theorem settled_fresh (options : WebSocketOptions) (limit : Nat) :
    Settled (fresh options limit) := by
  have hpass : (fresh options limit).pass = ([], .waiting, fresh options limit) := by
    cases limit <;> rfl
  refine ⟨?_, ?_, ?_⟩ <;> rw [hpass]

/-- Two cuts of the same bytes hand out the same packages in the same order.  Then both wait in the
same state with the same bytes left, or both failed with the same kind of error.  Without a limit
the replies in between and the error are the same as well. -/
theorem feed_eq_of_flatten_eq (options : WebSocketOptions) (limit : Nat) {left right : List Bytes}
    (hsame : left.flatten = right.flatten) :
    let first := (fresh options limit).feed left
    let second := (fresh options limit).feed right
    packagesOf first.1 = packagesOf second.1 ∧
      (first.2.1 = .waiting ∧ second.2.1 = .waiting ∧
          first.2.2.decoder = second.2.2.decoder ∧
          first.2.2.switches = second.2.2.switches ∧
          first.2.2.pending.bytes = second.2.2.pending.bytes ∨
        ∃ error error', first.2.1 = .failed error ∧ second.2.1 = .failed error' ∧
          error.SameKind error') ∧
      (limit = 0 → first.1 = second.1 ∧ first.2.1 = second.2.1) := by
  intro first second
  have hcut : CutAlike limit first second :=
    feed_cutAlike_feed Decoder.resumable hsame (ready_fresh options limit)
      (settled_fresh options limit)
  obtain ⟨hpackages, houtcome, hexact⟩ := hcut.outcome
  refine ⟨hpackages, ?_, hexact⟩
  obtain ⟨hfirst, hsecond, halike⟩ | hfailed := houtcome
  · exact .inl ⟨hfirst, hsecond, halike.decoder, halike.switches, halike.bytes⟩
  · exact .inr hfailed

/-- A request that is accepted. -/
def acceptedRequest : Bytes :=
  Utf8.encode "GET / HTTP/1.1\r\nSec-WebSocket-Version: 13\r\nSec-WebSocket-Key: k\r\n\r\n"

/-- The request, and a text in two masked fragments behind it. -/
def fragmentedText : Bytes :=
  acceptedRequest ++ [0x01, 0x81, 1, 2, 3, 4, 0x69, 0x80, 0x81, 5, 6, 7, 8, 0x6C]

/-- In one piece and byte by byte, the request is accepted with the same reply and the text comes
whole. -/
theorem feed_eq_of_fragmentedText :
    let bytewise := fragmentedText.map fun byte => [byte]
    [fragmentedText].flatten = bytewise.flatten ∧
      packagesOf ((fresh {} 0).feed bytewise).1 =
        [.handshake {
            request := ⟨"GET", "/", [("sec-websocket-key", "k"), ("sec-websocket-version", "13")]⟩
            version := .rfc6455
            subProtocol := none
            origin := none },
          .message ⟨.text, [0x68, 0x69]⟩] ∧
      ((fresh {} 0).feed [fragmentedText]).1 = ((fresh {} 0).feed bytewise).1 := by
  intro bytewise
  have hsame : [fragmentedText].flatten = bytewise.flatten :=
    List.flatten_singleton.trans (List.flatMap_singleton' fragmentedText).symm
  obtain ⟨hpackages, -, hexact⟩ := feed_eq_of_flatten_eq {} 0 hsame
  refine ⟨hsame, ?_, (hexact rfl).1⟩
  rw [← hpackages]
  decide +kernel

end FramedChannel.WebSocket
