import FramedChannel.Connection
import FramedChannel.Package.FixedSize

/-!
# What comes of the options of a channel

There are four ways to a channel: over the two halves of a transport, over a
stream, from a connection, and from a connection with a creator.  On each of
them the options are validated once, at a place of its own, and the queues are
made in `Channel.assemble`, which all share and which validates nothing.

* `validate_eq_ok_iff` says which options are valid.
* `assemble_of_le` and `assemble_of_lt` say what comes of valid ones.
* `Decided` says what comes of any options on one way, and `made_of_options`
  that all ways decide alike.  A queue for nothing is never asked for; a queue
  that is too large is, since no option has an upper bound.
-/

namespace FramedChannel

/-! ## Valid options -/

namespace ConnectionOptions

/-- Options with room for one byte of a read, one chunk in the queue and one pending send. -/
structure HasRoom (options : ConnectionOptions) : Prop where
  reads : 0 < options.receiveBufferSize
  queue : 0 < options.sendQueueCapacity
  pending : 0 < options.maxPendingSends

variable {options : ConnectionOptions}

theorem validate_eq_ok_iff : options.validate = .ok () ↔ options.HasRoom := by
  unfold validate
  constructor
  · intro h
    split at h
    · cases h
    split at h
    · cases h
    split at h
    · cases h
    rename_i hreads hqueue hpending
    exact ⟨Nat.pos_of_ne_zero hreads, Nat.pos_of_ne_zero hqueue, Nat.pos_of_ne_zero hpending⟩
  · rintro ⟨hreads, hqueue, hpending⟩
    rw [if_neg (Nat.ne_of_gt hreads), if_neg (Nat.ne_of_gt hqueue), if_neg (Nat.ne_of_gt hpending)]

theorem config_of_validate {error : Error} (h : options.validate = .error error) :
    ∃ name, error = .config (.notPositive name) := by
  unfold validate at h
  split at h
  · exact ⟨_, (Except.error.inj h).symm⟩
  split at h
  · exact ⟨_, (Except.error.inj h).symm⟩
  split at h
  · exact ⟨_, (Except.error.inj h).symm⟩
  · cases h

end ConnectionOptions

variable {σ π : Type} [PackageDecoder σ π] {options : ConnectionOptions} {decoder : σ}
  {remote : Option Socket}

/-! ## Assembling -/

/-- A channel to which nothing has happened. -/
def Channel.fresh (decoder : σ) (options : ConnectionOptions) (remote : Option Socket) :
    Channel σ π :=
  { options, remote
    outbox := .of options
    reassembly := .of decoder options.maxPackageLength }

theorem Channel.assemble_of_le (hpos : 0 < options.sendQueueCapacity)
    (hle : options.sendQueueCapacity ≤ maxQueueCapacity) :
    assemble decoder options remote = .ok (fresh decoder options remote) := by
  have hpackages : checkQueue packageCapacity = .ok () :=
    checkQueue_of_le (by decide) (by decide)
  rw [assemble, checkQueue_of_le hpos hle, hpackages]
  rfl

theorem Channel.assemble_of_lt (h : maxQueueCapacity < options.sendQueueCapacity) :
    assemble decoder options remote = .error (.queueTooLarge maxQueueCapacity) := by
  rw [assemble, checkQueue_of_lt h]
  rfl

theorem Connection.bind_of_le (connection : Connection) (hpos : 0 < options.sendQueueCapacity)
    (hle : options.sendQueueCapacity ≤ Channel.maxQueueCapacity) :
    connection.bind decoder options = .ok (Channel.fresh decoder options connection.remote) := by
  rw [bind, Channel.assemble_of_le hpos hle]
  obtain ⟨_ | remote⟩ := connection
  · rfl
  · rfl

theorem Connection.bind_of_lt (connection : Connection)
    (h : Channel.maxQueueCapacity < options.sendQueueCapacity) :
    connection.bind decoder options = .error (.queueTooLarge Channel.maxQueueCapacity) := by
  rw [bind, Channel.assemble_of_lt h]
  rfl

theorem Creator.of_eq_ok {factory : Unit → σ} (h : options.validate = .ok ()) :
    Creator.of options factory = .ok ⟨options, factory, h⟩ := by
  unfold Creator.of
  split
  · rfl
  · rename_i hfault
    rw [h] at hfault
    cases hfault

theorem Creator.of_eq_error {factory : Unit → σ} {error : Error}
    (h : options.validate = .error error) : Creator.of options factory = .error error := by
  unfold Creator.of
  split
  · rename_i hvalid
    rw [h] at hvalid
    cases hvalid
  · rename_i fault hfault
    rw [h] at hfault
    cases hfault
    rfl

/-! ## The ways to a channel -/

/-- What comes of options on a way to a channel with a decoder and a peer. -/
structure Decided (options : ConnectionOptions) (decoder : σ) (remote : Option Socket)
    (made : Except Error (Except Breach (Channel σ π))) : Prop where
  /-- Those options are refused that `validate` refuses, as a misconfiguration. -/
  refused_iff : ∀ error, made = .error error ↔
    options.validate = .error error ∧ ∃ fault, error = .config fault
  /-- Valid options break a promise if the send queue is too large, and no others do. -/
  broken_iff : ∀ breach, made = .ok (.error breach) ↔
    options.HasRoom ∧ Channel.maxQueueCapacity < options.sendQueueCapacity ∧
      breach = .queueTooLarge Channel.maxQueueCapacity
  /-- All other options make a channel. -/
  made_iff : ∀ c, made = .ok (.ok c) ↔
    options.HasRoom ∧ options.sendQueueCapacity ≤ Channel.maxQueueCapacity ∧
      c = Channel.fresh decoder options remote

/-- A way decides in that manner if it refuses invalid options and assembles a channel of all
others. -/
theorem decided_of_assembled {made : Except Error (Except Breach (Channel σ π))}
    {assembled : Except Breach (Channel σ π)}
    (hrefused : ∀ error, options.validate = .error error → made = .error error)
    (hvalid : options.validate = .ok () → made = .ok assembled)
    (hle : 0 < options.sendQueueCapacity → options.sendQueueCapacity ≤ Channel.maxQueueCapacity →
      assembled = .ok (Channel.fresh decoder options remote))
    (hlt : Channel.maxQueueCapacity < options.sendQueueCapacity →
      assembled = .error (.queueTooLarge Channel.maxQueueCapacity)) :
    Decided options decoder remote made := by
  cases hoptions : options.validate with
  | error error =>
    have hroom : ¬ options.HasRoom := by
      intro hroom
      rw [ConnectionOptions.validate_eq_ok_iff.2 hroom] at hoptions
      cases hoptions
    obtain ⟨name, rfl⟩ := ConnectionOptions.config_of_validate hoptions
    rw [hrefused _ hoptions]
    refine ⟨fun other => ?_, fun _ => by simp [hroom], fun _ => by simp [hroom]⟩
    simp only [hoptions, Except.error.injEq]
    constructor
    · rintro rfl
      exact ⟨rfl, _, rfl⟩
    · rintro ⟨hsame, -⟩
      exact hsame
  | ok =>
    have hroom := ConnectionOptions.validate_eq_ok_iff.1 hoptions
    rw [hvalid hoptions]
    rcases Nat.lt_or_ge Channel.maxQueueCapacity options.sendQueueCapacity with hlarge | hfits
    · rw [hlt hlarge]
      refine ⟨fun _ => by simp [hoptions], fun _ => ?_, fun _ => ?_⟩
      · simp [hroom, hlarge, eq_comm]
      · simp [Nat.not_le.2 hlarge]
    · rw [hle hroom.queue hfits]
      refine ⟨fun _ => by simp [hoptions], fun _ => ?_, fun _ => ?_⟩
      · simp [Nat.not_lt.2 hfits]
      · simp [hroom, hfits, eq_comm]

/-- All ways to a channel decide alike, whatever the options are. -/
theorem made_of_options (options : ConnectionOptions) (decoder : σ) (factory : Unit → σ)
    (connection : Connection) :
    Decided options decoder none (Channel.create decoder options) ∧
      Decided options decoder none (Channel.ofStream decoder options) ∧
      Decided options decoder connection.remote (connection.intoChannel decoder options) ∧
      Decided options (factory ()) connection.remote
        ((Creator.of options factory).map (·.create connection)) := by
  have hcreate : Decided options decoder none (Channel.create (π := π) decoder options) :=
    decided_of_assembled (fun _ h => by rw [Channel.create, h]; rfl)
      (fun h => by rw [Channel.create, h]; rfl) Channel.assemble_of_le Channel.assemble_of_lt
  refine ⟨hcreate, hcreate, ?_, ?_⟩
  · exact decided_of_assembled (fun _ h => by rw [Connection.intoChannel, h]; rfl)
      (fun h => by rw [Connection.intoChannel, h]; rfl) connection.bind_of_le
      connection.bind_of_lt
  · exact decided_of_assembled (fun _ h => by rw [Creator.of_eq_error h]; rfl)
      (fun h => by rw [Creator.of_eq_ok h]; rfl) connection.bind_of_le connection.bind_of_lt

/-- A send queue for one chunk more than a queue can hold. -/
def oversized : ConnectionOptions :=
  { sendQueueCapacity := 2305843009213693952 }

/-- Valid options that break a promise on every way to a channel. -/
theorem oversized_breaks :
    oversized.validate = .ok () ∧
      Channel.create (FixedSize.mk 4) oversized =
        .ok (.error (.queueTooLarge 2305843009213693951)) ∧
      Channel.ofStream (FixedSize.mk 4) oversized =
        .ok (.error (.queueTooLarge 2305843009213693951)) ∧
      Connection.ofStream.intoChannel (FixedSize.mk 4) oversized =
        .ok (.error (.queueTooLarge 2305843009213693951)) ∧
      (Creator.of oversized fun _ => FixedSize.mk 4).map (·.create Connection.ofStream) =
        .ok (.error (.queueTooLarge 2305843009213693951)) :=
  ⟨rfl, rfl, rfl, rfl, rfl⟩

end FramedChannel
