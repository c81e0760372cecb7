import FramedChannel.Proofs.Session.StepsAreTurns

/-!
# Who hears of a package

A session gives what its event stream has to the calls that asked for it, and
no other call of the application ever stands for one of them.

* `Session.callers` are the calls that asked and were not told yet.
* `Serves` says that a step told only calls of a given kind, and that only such
  calls are left.  There is one lemma for each function of the session.
* `next_of_hearer` is the result.
-/

namespace FramedChannel.WebSocket

/-- The call that an event gives something of the event stream to. -/
def SessionEvent.hearer? : SessionEvent → Option Nat
  | channel (.received call _) | delivered call _ => some call
  | _ => none

/-- The calls that events give something of the event stream to. -/
def hearersOf (events : List SessionEvent) : List Nat :=
  events.filterMap SessionEvent.hearer?

/-- The calls that asked the event stream and that it did not let go yet. -/
def Session.callers (s : Session) : List Nat :=
  s.reader.calls ++ s.reader.answers?.toList ++ s.queued

/-- Only calls of a given kind heard of something, and only such calls are left. -/
structure Serves (hears : Nat → Prop) (result : List SessionEvent × Session) : Prop where
  told : ∀ call ∈ hearersOf result.1, hears call
  left : ∀ call ∈ result.2.callers, hears call

variable {hears : Nat → Prop} {s : Session} {events more : List SessionEvent} {call : Nat}
  {channel : Channel Decoder Package} {seen : List (Event Package)}

theorem hearersOf_append :
    hearersOf (events ++ more) = hearersOf events ++ hearersOf more :=
  List.filterMap_append

/-- Events that take no package from the channel tell nobody. -/
theorem hearersOf_map (h : takenOf seen = []) : hearersOf (seen.map .channel) = [] := by
  induction seen with
  | nil => rfl
  | cons event rest ih =>
    rw [takenOf, List.flatMap_cons, List.append_eq_nil_iff] at h
    cases event with
    | received => cases h.1
    | _ => exact ih h.2

/-- Behind an event that tells nobody. -/
theorem Serves.cons {event : SessionEvent} (h : Serves hears (more, s))
    (hnobody : event.hearer? = none) : Serves hears (event :: more, s) := by
  refine ⟨?_, h.left⟩
  rw [hearersOf, List.filterMap_cons_none hnobody]
  exact h.told

theorem Serves.trans (h : Serves hears (events, s)) {after : Session}
    (h' : Serves hears (more, after)) : Serves hears (events ++ more, after) := by
  refine ⟨fun call hmem => ?_, h'.left⟩
  rw [hearersOf_append] at hmem
  exact (List.mem_append.1 hmem).elim (h.told call) (h'.told call)

theorem serves_nil (h : ∀ call ∈ s.callers, hears call) : Serves hears ([], s) :=
  ⟨fun _ hmem => (List.not_mem_nil hmem).elim, h⟩

namespace Session

/-! ## The event stream -/

theorem mem_callers {other : Nat} :
    other ∈ s.callers ↔
      other ∈ s.reader.calls ∨ s.reader.answers? = some other ∨ other ∈ s.queued := by
  simp [callers, Option.mem_toList]

theorem queued_hears (h : ∀ other ∈ s.callers, hears other) : ∀ other ∈ s.queued, hears other :=
  fun other hmem => h other (mem_callers.2 (.inr (.inr hmem)))

/-- The callers of a session that answers a package are the call that met it and those behind. -/
theorem hears_of_answers (hcalls : s.reader.calls = []) (hanswers : s.reader.answers? = some call)
    (hcall : hears call) (h : ∀ other ∈ s.queued, hears other) :
    ∀ other ∈ s.callers, hears other := by
  intro other hmem
  rcases mem_callers.1 hmem with hwaits | hsame | hqueued
  · rw [hcalls] at hwaits
    cases hwaits
  · cases hanswers.symm.trans hsame
    exact hcall
  · exact h other hqueued

theorem waitNext_serves (h : ∀ other ∈ s.queued, hears other) (hcall : hears call) :
    Serves hears ([], s.waitNext call) := by
  refine serves_nil fun other hmem => ?_
  rcases mem_callers.1 hmem with hwaits | habsurd | hqueued
  · obtain rfl := List.mem_singleton.1 hwaits
    exact hcall
  · cases habsurd
  · exact h other hqueued

theorem deliver_serves (h : ∀ other ∈ s.callers, hears other) (hcall : hears call)
    (notice : Option Notice) : Serves hears (s.deliver call notice) := by
  have hqueued := queued_hears h
  have htold : ∀ other ∈ hearersOf [.delivered call notice], hears other := by
    intro other hmem
    obtain rfl := List.mem_singleton.1 hmem
    exact hcall
  unfold deliver
  split
  · refine ⟨htold, fun other hmem => ?_⟩
    rcases mem_callers.1 hmem with habsurd | habsurd | hmem
    · cases habsurd
    · cases habsurd
    · exact hqueued other hmem
  · rename_i next rest hsome
    rw [hsome] at hqueued
    obtain ⟨hnext, hrest⟩ := List.forall_mem_cons.1 hqueued
    exact ⟨htold, (waitNext_serves (s := { s with queued := rest }) hrest hnext).left⟩

theorem hearersOf_forceClose (s : Session) (reason : CloseReason) :
    hearersOf (s.forceClose reason).1 = [] :=
  hearersOf_map (Channel.intake_abort s.channel reason).1

theorem forceClose_serves (h : ∀ other ∈ s.callers, hears other) (reason : CloseReason) :
    Serves hears (s.forceClose reason) := by
  refine ⟨?_, h⟩
  rw [hearersOf_forceClose]
  exact fun other hmem => (List.not_mem_nil hmem).elim

/-- The session closes its channel without a handshake, and the event stream waits for the end. -/
theorem abort_serves (h : ∀ other ∈ s.queued, hears other) (hcall : hears call)
    (reason : CloseReason) :
    Serves hears ((s.forceClose reason).1, (s.forceClose reason).2.waitNext call) := by
  have hwaits : Serves hears ([], (s.forceClose reason).2.waitNext call) := waitNext_serves h hcall
  refine ⟨?_, hwaits.left⟩
  rw [hearersOf_forceClose]
  exact hwaits.told

theorem next_serves (h : ∀ other ∈ s.callers, hears other) (hcall : hears call) :
    Serves hears ([], s.next call) := by
  unfold next
  split
  · exact waitNext_serves (queued_hears h) hcall
  · refine serves_nil fun other hmem => ?_
    rw [callers, ← List.append_assoc] at hmem
    rcases List.mem_append.1 hmem with hmem | hmem
    · exact h other hmem
    · obtain rfl := List.mem_singleton.1 hmem
      exact hcall

/-! ## Sends -/

theorem sent_serves (h : ∀ other ∈ s.callers, hears other) (sent : Sent) :
    Serves hears ([.sent call sent], s) :=
  (serves_nil h).cons rfl

theorem onSent_serves (h : ∀ other ∈ s.callers, hears other) (sent : Sent) :
    Serves hears (s.onSent call sent) := by
  let forgotten := { s with closers := s.closers.erase call }
  have hforgotten : ∀ other ∈ forgotten.callers, hears other := h
  unfold onSent
  split
  · cases sent with
    | done before => exact sent_serves hforgotten _
    | failed error =>
      have hclosing := forceClose_serves hforgotten .localClosing
      exact hclosing.trans (sent_serves hclosing.left _)
  · exact sent_serves h _

theorem onReturned_serves (h : ∀ other ∈ s.callers, hears other) (sent : Sent) :
    Serves hears (s.onReturned call sent) := by
  have hqueued := queued_hears h
  unfold onReturned
  split
  · rename_i hreader
    have hcall : hears call := h call (mem_callers.2 (.inr (.inl (by rw [hreader]; rfl))))
    exact abort_serves hqueued hcall _
  · split
    · rename_i reading ping hreader
      split
      · rename_i hsame
        have hcall : hears call :=
          h call (mem_callers.2 (.inr (.inl (by rw [hreader, hsame]; rfl))))
        exact deliver_serves h hcall _
      · exact onSent_serves h sent
    · exact onSent_serves h sent

theorem absorbReturns_serves (h : ∀ other ∈ s.callers, hears other)
    (hnobody : ∀ event ∈ seen, (SessionEvent.channel event).hearer? = none) :
    Serves hears (s.absorbReturns seen) := by
  induction seen generalizing s with
  | nil => exact serves_nil h
  | cons event rest ih =>
    obtain ⟨hfirst, hrest⟩ := List.forall_mem_cons.1 hnobody
    cases event with
    | returned sender sent =>
      cases sender with
      | call call =>
        have hreturned : Serves hears (s.onReturned call sent) := onReturned_serves h sent
        exact (hreturned.cons hfirst).trans (ih hreturned.left hrest)
      | reply => exact (ih h hrest).cons hfirst
    | _ => exact (ih h hrest).cons hfirst

/-- Letting a send in tells nobody. -/
theorem hearer?_of_send (c : Channel Decoder Package) (send : Send) :
    ∀ event ∈ (c.send send).1, (SessionEvent.channel event).hearer? = none := by
  unfold Channel.send
  split <;> simp [SessionEvent.hearer?]

theorem post_serves (h : ∀ other ∈ s.callers, hears other) (message : Message) :
    Serves hears (s.post call message) := by
  unfold post
  split
  · exact onReturned_serves h _
  · exact absorbReturns_serves h (hearer?_of_send _ _)

theorem send_serves (h : ∀ other ∈ s.callers, hears other) (message : Message) :
    Serves hears (s.send call message) := by
  unfold send
  split
  · exact post_serves h message
  all_goals exact sent_serves h _

theorem closeHandshake_serves (h : ∀ other ∈ s.callers, hears other) (status : UInt16)
    (reason : String) : Serves hears (s.closeHandshake call status reason) := by
  unfold closeHandshake
  split
  · have hclosing := forceClose_serves h .localClosing
    exact hclosing.trans (sent_serves hclosing.left _)
  · let closing := { s with
      stored := .closingLocal
      closeStarted := some s.channel.now
      closers := s.closers ++ [call] }
    have hclosing : ∀ other ∈ closing.callers, hears other := h
    exact post_serves hclosing _

/-! ## Incoming packages -/

theorem onClose_serves (h : ∀ other ∈ s.callers, hears other) (hcall : hears call)
    (payload : Bytes) : Serves hears (s.onClose call payload) := by
  have hqueued := queued_hears h
  unfold onClose
  split
  · exact abort_serves hqueued hcall _
  · let answering := { s with stored := .closingRemote, reader := .answering call }
    have hanswering : ∀ other ∈ answering.callers, hears other :=
      hears_of_answers rfl rfl hcall hqueued
    exact post_serves hanswering _
  · exact waitNext_serves hqueued hcall

theorem onReceived_serves (h : ∀ other ∈ s.callers, hears other) (hcall : hears call)
    (package : Option Package) : Serves hears (s.onReceived call package) := by
  rcases package with _ | info | request | message
  · exact deliver_serves h hcall _
  · let opened := { s with
      stored := .opened, version := some info.version, subProtocol := info.subProtocol }
    have hopened : ∀ other ∈ opened.callers, hears other := h
    exact deliver_serves hopened hcall _
  · exact deliver_serves h hcall _
  · simp only [onReceived]
    split
    · exact onClose_serves h hcall _
    · have hqueued := queued_hears h
      let ponging := { s with reader := .ponging call message }
      have hponging : ∀ other ∈ ponging.callers, hears other :=
        hears_of_answers rfl rfl hcall hqueued
      exact post_serves hponging _
    · exact deliver_serves h hcall _

theorem absorb_serves (h : ∀ other ∈ s.callers, hears other)
    (hseen : ∀ call package, .received call package ∈ seen → hears call) :
    Serves hears (s.absorb seen) := by
  induction seen generalizing s with
  | nil => exact serves_nil h
  | cons event rest ih =>
    have hrest : ∀ call package, .received call package ∈ rest → hears call :=
      fun call package hmem => hseen call package (List.mem_cons_of_mem _ hmem)
    cases event with
    | returned sender sent =>
      cases sender with
      | call call =>
        have hreturned : Serves hears (s.onReturned call sent) := onReturned_serves h sent
        exact (hreturned.cons rfl).trans (ih hreturned.left hrest)
      | reply => exact (ih h hrest).cons rfl
    | received call package =>
      have hcall := hseen call package List.mem_cons_self
      have hreceived := onReceived_serves h hcall package
      have htold : Serves hears ([.channel (.received call package)], s) := by
        refine ⟨fun other hmem => ?_, h⟩
        obtain rfl := List.mem_singleton.1 hmem
        exact hcall
      exact (htold.trans hreceived).trans (ih hreceived.left hrest)
    | _ => exact (ih h hrest).cons rfl

/-! ## Steps -/

/-- A package is received by a call that asked for one. -/
theorem received_of_step (hsane : s.core.Sane) {action : FramedChannel.Action}
    (hinternal : action.isInternal = true) (hstep : s.channel.step action = some (seen, channel))
    {package : Option Package} (hmem : .received call package ∈ seen) : call ∈ s.callers := by
  by_cases hproceed : action = .proceed
  · subst hproceed
    have hnone := (stepSend_aside hstep).1
    simp only [takenOf, List.flatMap_eq_nil_iff] at hnone
    cases hnone _ hmem
  by_cases hreceive : action = .receive
  · subst hreceive
    obtain ⟨first, taken, rfl⟩ := received_of_receive hstep
    cases List.mem_singleton.1 hmem
    have hreaders : s.channel.readers = s.reader.calls := hsane.readers
    rw [(receive_aside hstep).1] at hreaders
    exact mem_callers.2 (.inl (hreaders ▸ List.mem_cons_self))
  · exact (quiet_of_step hinternal hproceed hreceive hstep _ hmem).elim

theorem step_serves (hsane : s.core.Sane) (h : ∀ other ∈ s.callers, hears other)
    {action : Session.Action} (hnext : ∀ call, action = .next call → hears call)
    {result : List SessionEvent × Session} (hstep : s.step action = some result) :
    Serves hears result := by
  cases action with
  | start =>
    cases hstep
    refine (serves_nil (s := s.start.2) ?_).cons rfl
    unfold start
    split <;> exact h
  | send call message =>
    cases hstep
    exact send_serves h message
  | sendRaw call bytes =>
    cases hstep
    exact absorbReturns_serves h (hearer?_of_send _ _)
  | closeHandshake call status reason =>
    cases hstep
    exact closeHandshake_serves h status reason
  | forceClose reason =>
    cases hstep
    exact forceClose_serves h reason
  | close call reason =>
    cases hstep
    exact ⟨(forceClose_serves h reason).told, h⟩
  | waitClosed call | track =>
    cases hstep
    exact serves_nil h
  | next call =>
    simp only [step] at hstep
    split at hstep <;> cases hstep
    exact next_serves h (hnext call rfl)
  | channel action =>
    simp only [step] at hstep
    split at hstep
    · rename_i hinternal
      obtain ⟨⟨seen, channel⟩, hchannel, rfl⟩ := Option.map_eq_some_iff.1 hstep
      exact absorb_serves h fun call package hmem =>
        h call (received_of_step hsane hinternal hchannel hmem)
    · cases hstep

theorem steps_serves {actions : List Session.Action} {result : List SessionEvent × Session}
    (hsane : s.core.Sane) (h : ∀ other ∈ s.callers, hears other)
    (hnext : ∀ call, .next call ∈ actions → hears call) (hsteps : s.steps actions = some result) :
    Serves hears result := by
  induction actions generalizing s result with
  | nil =>
    cases hsteps
    exact serves_nil h
  | cons action rest ih =>
    obtain ⟨first, middle, more, after, hfirst, hrest, rfl⟩ := steps_cons hsteps
    have hreaches : Reaches (fun _ => True) s.core (first, middle) :=
      step_reaches hsane trivial hfirst
    obtain ⟨moves, hturns⟩ := hreaches
    have hserves : Serves hears (first, middle) :=
      step_serves hsane h (fun call hsame => hnext call (hsame ▸ List.mem_cons_self)) hfirst
    exact hserves.trans (ih (hturns.sane hsane) hserves.left
      (fun call hmem => hnext call (List.mem_cons_of_mem _ hmem)) hrest)

/-- What the event stream of a session has goes to calls that asked for it. -/
theorem next_of_hearer {pipeline options : WebSocketOptions} {connection : ConnectionOptions}
    {remote : Option Socket} {actions : List Session.Action}
    (hassemble : Channel.assemble (Decoder.of pipeline) connection remote = .ok channel)
    (hsteps : (Session.of channel options).steps actions = some (events, s))
    (hmem : call ∈ hearersOf events) : .next call ∈ actions := by
  have hserves : Serves (fun call => .next call ∈ actions) (events, s) :=
    steps_serves (sane_of_assemble hassemble) (fun other habsurd => by cases habsurd)
      (fun _ hnext => hnext) hsteps
  exact hserves.told call hmem

end Session

end FramedChannel.WebSocket
