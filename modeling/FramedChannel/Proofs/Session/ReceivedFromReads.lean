import FramedChannel.Proofs.Session.NoticesFromPackages

/-!
# What a session reads

Turns do not tell by themselves which bytes they read.  The bytes are those of
the actions, one read for each of them: `steps_reads`.

With this, what the event stream takes from the channel is a part of what the
decoder makes of the reads: `received_of_steps`.
-/

namespace FramedChannel.WebSocket

/-- The bytes that the fill loop is given to read. -/
def Session.Action.read? : Session.Action → Option Bytes
  | .channel (.fill (.read bytes)) => some bytes
  | _ => none

/-- All that some actions give the fill loop to read, in order. -/
def inputOf (actions : List Session.Action) : List Bytes :=
  actions.filterMap Session.Action.read?

variable {asked wider : Session.Action → Prop} {c after : Core} {move : Option Move}
  {moves : List Move} {events : List SessionEvent} {s : Session}

theorem Turn.mono (hwider : ∀ action, asked action → wider action)
    (h : Turn asked c move events after) : Turn wider c move events after := by
  cases h with
  | returns call sent => exact .returns call sent
  | aside haside hmove hasked =>
    exact .aside haside hmove fun action hfill => hwider _ (hasked action hfill)
  | starts hrun => exact .starts hrun
  | asks call hheld => exact .asks call hheld
  | waits hidle hheld => exact .waits hidle hheld
  | meets hmove => exact .meets hmove
  | pongs hreader => exact .pongs hreader
  | answers hreader hmove => exact .answers hreader hmove
  | posts hallowed hversion hmove =>
    exact .posts (hallowed.imp_left fun h => ⟨hwider _ h.1, h.2⟩) hversion hmove
  | closes hopened hclose hallowed hstored hversion hmove =>
    refine .closes hopened hclose (hallowed.imp_left ?_) hstored hversion hmove
    rintro ⟨status, reason, hasked, hsame⟩
    exact ⟨status, reason, hwider _ hasked, hsame⟩
  | bypasses hasked hmove => exact .bypasses (hwider _ hasked) hmove

/-- Turns for some actions are turns for more. -/
theorem Turns.mono (hwider : ∀ action, asked action → wider action)
    (h : Turns asked c moves events after) : Turns wider c moves events after := by
  induction h with
  | refl => exact .refl _
  | tail _ hturn ih => exact .tail ih (hturn.mono hwider)

namespace Session

variable {action : Session.Action} {actions : List Session.Action}
  {result : List SessionEvent × Session}

/-- A step of the fill loop is one turn. -/
theorem fill_turn {fill : FillAction} (hstep : s.step (.channel (.fill fill)) = some result) :
    Turn (· = .channel (.fill fill)) s.core (some (.act (.fill fill))) result.1 result.2.core := by
  obtain ⟨⟨seen, channel⟩, hchannel, rfl⟩ := Option.map_eq_some_iff.1 hstep
  have hinternal : (FramedChannel.Action.fill fill).isInternal = true := rfl
  have hquiet : ∀ event ∈ seen, IsQuiet event := quiet_of_step hinternal nofun nofun hchannel
  exact quiet_turn rfl hquiet hchannel fun _ _ => rfl

/-- The moves of a step read what its action gives them. -/
theorem step_reads (hsane : s.core.Sane) (hstep : s.step action = some result) :
    ∃ moves, Turns (· = action) s.core moves result.1 result.2.core ∧
      readsOf moves = action.read?.toList := by
  by_cases hfill : ∃ fill, action = .channel (.fill fill)
  · obtain ⟨fill, rfl⟩ := hfill
    refine ⟨_, (fill_turn hstep).turns, ?_⟩
    cases fill <;> rfl
  · have hreaches : Reaches (· = action) s.core result := step_reaches hsane rfl hstep
    obtain ⟨moves, hturns⟩ := hreaches
    refine ⟨moves, hturns, ?_⟩
    have hmoves : readsOf moves = [] := by
      rw [readsOf, List.filterMap_eq_nil_iff]
      intro move hmem
      by_contra hreads
      obtain ⟨fill, rfl⟩ : ∃ fill, move = .act (.fill fill) := by
        unfold Move.read at hreads
        split at hreads
        · exact ⟨_, rfl⟩
        · exact absurd rfl hreads
      exact hfill ⟨fill, (hturns.asked_fill hmem).symm⟩
    have haction : action.read? = none := by
      unfold Session.Action.read?
      split
      · exact absurd ⟨_, rfl⟩ hfill
      · rfl
    rw [hmoves, haction]
    rfl

/-- The moves of some steps read what the actions give them. -/
theorem steps_reads (hsane : s.core.Sane) (hsteps : s.steps actions = some result) :
    ∃ moves, Turns (· ∈ actions) s.core moves result.1 result.2.core ∧
      readsOf moves = inputOf actions := by
  induction actions generalizing s result with
  | nil =>
    cases hsteps
    exact ⟨[], .refl _, rfl⟩
  | cons action rest ih =>
    obtain ⟨first, middle, more, after, hfirst, hrest, rfl⟩ := steps_cons hsteps
    obtain ⟨moves, hturns, hreads⟩ := step_reads hsane hfirst
    obtain ⟨others, hturns', hreads'⟩ := ih (hturns.sane hsane) hrest
    refine ⟨moves ++ others, ?_, ?_⟩
    · refine (hturns.mono ?_).trans (hturns'.mono fun _ => List.mem_cons_of_mem _)
      rintro _ rfl
      exact List.mem_cons_self
    · rw [readsOf, List.filterMap_append, ← readsOf, ← readsOf, hreads, hreads', inputOf, inputOf]
      cases hread : action.read? <;> simp [hread]

end Session

/-- The event stream of a session takes packages that the decoder makes of what was read, from the
first one on. -/
theorem received_of_steps {pipeline options : WebSocketOptions} {connection : ConnectionOptions}
    {remote : Option Socket} {channel : Channel Decoder Package} {actions : List Session.Action}
    (hassemble : Channel.assemble (Decoder.of pipeline) connection remote = .ok channel)
    (hsteps : (Session.of channel options).steps actions = some (events, s)) :
    receivedOf (channelEvents events) <+:
      decodedFrom (Decoder.of pipeline) connection.maxPackageLength (inputOf actions) := by
  obtain ⟨moves, hturns, hreads⟩ :=
    Session.steps_reads (Session.sane_of_assemble hassemble) hsteps
  obtain ⟨handed, hhanding, -⟩ := handing_of_turns hassemble hturns
  obtain ⟨behind, hbelow⟩ := hhanding.below
  have hreceived := (List.prefix_append ..).trans hhanding.received
  rw [hreads] at hbelow
  rw [decodedFrom, ← hbelow, List.append_assoc, Reassembly.packagesOf_append]
  exact hreceived.trans (List.prefix_append ..)

end FramedChannel.WebSocket
