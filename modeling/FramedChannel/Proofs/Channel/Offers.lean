import FramedChannel.Channel.Batch

/-!
# What a writer gets of a batch

A batch is written by calls of its writer.  This module says which calls these
are, what the writer takes in them, and how they end.

* `Writer.logged` is a writer that keeps its calls, and `received` are the bytes
  that it took in some of them.
* `Offers` are the calls of `offer`: one case for a batch that is written, one
  for a call that ends the loop, and one for a call behind which the loop goes
  on.  `exists_offers` is the induction on the loop, and what the writer gets
  is then shown by induction on its calls.
* `Delivery` says what the calls of a whole write come to, and
  `write_delivers` that every write is a delivery.
-/

namespace FramedChannel.Batch

/-! ## Calls of a writer -/

/-- A call of a writer, with its answer. -/
inductive Call where
  | write (slices : List Bytes) (answer : Writing)
  | flush (answer : Outcome)
  deriving DecidableEq, Repr

namespace Call

/-- The bytes that the writer took. -/
def took : Call → Bytes
  | write slices (.took count) => slices.flatten.take count
  | _ => []

/-- How writing ends with a call, unless it goes on behind it.  A writer that takes nothing has
failed. -/
def ending? : Call → Option Outcome
  | write _ (.took 0) => some (.failed .tookNothing)
  | write _ (.took (_ + 1)) => none
  | write _ .blocked => some .blocked
  | write _ (.failed fault) => some (.failed fault)
  | flush .written => none
  | flush outcome => some outcome

/-- The writer took a byte at least, and no more than it was offered. -/
def IsWilling : Call → Prop
  | write slices (.took count) => 0 < count ∧ count ≤ size slices
  | write _ _ => False
  | flush _ => True

theorem ending?_ne_written (call : Call) : call.ending? ≠ some .written := by
  rcases call with ⟨slices, ((_ | count) | _ | fault)⟩ | (_ | _ | fault) <;> simp [ending?]

theorem IsWilling.ending?_eq_none {slices : List Bytes} {answer : Writing}
    (h : (write slices answer).IsWilling) : (write slices answer).ending? = none := by
  rcases answer with (_ | count) | _ | fault
  · exact absurd h.1 (Nat.lt_irrefl 0)
  · rfl
  · exact h.elim
  · exact h.elim

theorem took_of_ending? {call : Call} {outcome : Outcome} (h : call.ending? = some outcome) :
    call.took = [] := by
  rcases call with ⟨slices, ((_ | count) | _ | fault)⟩ | answer
  · exact List.take_zero (l := slices.flatten)
  · cases h
  · rfl
  · rfl
  · rfl

end Call

/-- The bytes that a writer took in some calls. -/
def received (calls : List Call) : Bytes :=
  calls.flatMap Call.took

@[simp] theorem received_nil : received [] = [] := rfl

@[simp] theorem received_cons (call : Call) (calls : List Call) :
    received (call :: calls) = call.took ++ received calls := rfl

@[simp] theorem received_concat_flush (calls : List Call) (answer : Outcome) :
    received (calls ++ [.flush answer]) = received calls := by
  simp [received, Call.took]

variable {ω : Type}

/-- A writer that takes some of everything it is offered. -/
def Writer.IsWilling (writer : Writer ω) : Prop :=
  ∀ w slices, 0 < size slices → (Call.write slices (writer.write w slices).1).IsWilling

/-- The same writer, which keeps its calls. -/
def Writer.logged (writer : Writer ω) : Writer (List Call × ω) where
  write := fun (calls, w) slices =>
    let (answer, after) := writer.write w slices
    (answer, calls ++ [.write slices answer], after)
  flush := fun (calls, w) =>
    let (answer, after) := writer.flush w
    (answer, calls ++ [.flush answer], after)

theorem logged_write {writer : Writer ω} {w after : ω} {slices : List Bytes} {answer : Writing}
    (h : writer.write w slices = (answer, after)) (before : List Call) :
    writer.logged.write (before, w) slices = (answer, before ++ [.write slices answer], after) := by
  simp only [Writer.logged, h]

theorem logged_flush {writer : Writer ω} {w after : ω} {answer : Outcome}
    (h : writer.flush w = (answer, after)) (before : List Call) :
    writer.logged.flush (before, w) = (answer, before ++ [.flush answer], after) := by
  simp only [Writer.logged, h]

/-! ## The calls of the loop -/

variable {writer : Writer ω} {batch : List Bytes} {taken total : Nat} {w after : ω}
  {calls : List Call} {outcome : Outcome}

theorem offer_of_le (h : size batch ≤ taken) : offer writer batch taken w = (.written, taken, w) := by
  rw [offer, if_neg (Nat.not_lt.2 h)]

theorem offer_of_took {count : Nat} (h : taken < size batch)
    (hwrite : writer.write w (remaining batch taken) = (.took (count + 1), after)) :
    offer writer batch taken w = offer writer batch (taken + (count + 1)) after := by
  rw [offer, if_pos h, hwrite]

theorem offer_of_ending {answer : Writing} (h : taken < size batch)
    (hwrite : writer.write w (remaining batch taken) = (answer, after))
    (hends : (Call.write (remaining batch taken) answer).ending? = some outcome) :
    offer writer batch taken w = (outcome, taken, after) := by
  rw [offer, if_pos h, hwrite]
  rcases answer with (_ | count) | _ | fault
  · cases hends
    rfl
  · cases hends
  · cases hends
    rfl
  · cases hends
    rfl

/-- The calls that offer a batch behind its first `taken` bytes, from one state of the writer to
another.  In the end `total` bytes are taken altogether. -/
inductive Offers (writer : Writer ω) (batch : List Bytes) :
    Nat → ω → List Call → Outcome → Nat → ω → Prop where
  | done {taken : Nat} {w : ω} (h : size batch ≤ taken) :
      Offers writer batch taken w [] .written taken w
  | stops {taken : Nat} {w after : ω} {answer : Writing} {outcome : Outcome}
      (h : taken < size batch)
      (hwrite : writer.write w (remaining batch taken) = (answer, after))
      (hends : (Call.write (remaining batch taken) answer).ending? = some outcome) :
      Offers writer batch taken w [.write (remaining batch taken) answer] outcome taken after
  | goesOn {taken count total : Nat} {w middle after : ω} {calls : List Call} {outcome : Outcome}
      (h : taken < size batch)
      (hwrite : writer.write w (remaining batch taken) = (.took (count + 1), middle))
      (hrest : Offers writer batch (taken + (count + 1)) middle calls outcome total after) :
      Offers writer batch taken w (.write (remaining batch taken) (.took (count + 1)) :: calls)
        outcome total after

/-- The loop ends for every writer. -/
theorem exists_offers (writer : Writer ω) (batch : List Bytes) (taken : Nat) (w : ω) :
    ∃ calls outcome total after, Offers writer batch taken w calls outcome total after := by
  induction taken, w using offer.induct writer batch with
  | case1 taken w h after hwrite => exact ⟨_, _, _, _, .stops h hwrite rfl⟩
  | case2 taken w h count after hwrite ih =>
    obtain ⟨calls, outcome, total, final, hrest⟩ := ih
    exact ⟨_, _, _, _, .goesOn h hwrite hrest⟩
  | case3 taken w h after hwrite => exact ⟨_, _, _, _, .stops h hwrite rfl⟩
  | case4 taken w h fault after hwrite => exact ⟨_, _, _, _, .stops h hwrite rfl⟩
  | case5 taken w h => exact ⟨_, _, _, _, .done (Nat.not_lt.1 h)⟩

namespace Offers

theorem offer_eq (h : Offers writer batch taken w calls outcome total after) :
    offer writer batch taken w = (outcome, total, after) := by
  induction h with
  | done h => exact offer_of_le h
  | stops h hwrite hends => exact offer_of_ending h hwrite hends
  | goesOn h hwrite _ ih => exact (offer_of_took h hwrite).trans ih

/-- The log grows by the calls, and changes nothing else. -/
theorem offer_logged (h : Offers writer batch taken w calls outcome total after)
    (before : List Call) :
    offer writer.logged batch taken (before, w) = (outcome, total, before ++ calls, after) := by
  induction h generalizing before with
  | done h => rw [offer_of_le h, List.append_nil]
  | stops h hwrite hends => exact offer_of_ending h (logged_write hwrite before) hends
  | goesOn h hwrite _ ih =>
    rw [offer_of_took h (logged_write hwrite before), ih, List.append_assoc,
      List.singleton_append]

/-- Every call but the last takes a byte at least. -/
theorem length_le (h : Offers writer batch taken w calls outcome total after) :
    calls.length ≤ size batch - taken := by
  induction h with
  | done => exact Nat.zero_le _
  | stops h =>
    rw [List.length_singleton]
    omega
  | goesOn h _ _ ih =>
    rw [List.length_cons]
    omega

theorem le_total (h : Offers writer batch taken w calls outcome total after) : taken ≤ total := by
  induction h with
  | done | stops => exact Nat.le_refl _
  | goesOn _ _ _ ih => omega

/-- The writer takes the bytes from `taken` to `total`, each of them once. -/
theorem received_eq (h : Offers writer batch taken w calls outcome total after) :
    received calls = (batch.flatten.drop taken).take (total - taken) := by
  induction h with
  | done => rw [Nat.sub_self, List.take_zero, received_nil]
  | stops _ _ hends =>
    rw [received_cons, Call.took_of_ending? hends, Nat.sub_self, List.take_zero, received_nil,
      List.nil_append]
  | @goesOn taken count total _ _ _ _ _ _ _ hrest ih =>
    have hle := hrest.le_total
    have hsum : total - taken = count + 1 + (total - (taken + (count + 1))) := by omega
    rw [received_cons, ih, hsum, List.take_add, List.drop_drop, Call.took, flatten_remaining]

/-- The outcome is that of the call which ends the loop. -/
theorem eq_of_ending? (h : Offers writer batch taken w calls outcome total after) {call : Call}
    {ending : Outcome} (hmem : call ∈ calls) (hends : call.ending? = some ending) :
    outcome = ending := by
  induction h with
  | done => cases hmem
  | stops _ _ hlast =>
    obtain rfl := List.mem_singleton.1 hmem
    exact Option.some.inj (hlast.symm.trans hends)
  | goesOn _ _ _ ih =>
    rcases List.mem_cons.1 hmem with rfl | hmem
    · cases hends
    · exact ih hmem

/-- The loop goes on until all is taken, unless a call ends it. -/
theorem written_or_ends (h : Offers writer batch taken w calls outcome total after) :
    outcome = .written ∧ size batch ≤ total ∨
      ∃ slices answer, .write slices answer ∈ calls ∧
        (Call.write slices answer).ending? = some outcome := by
  induction h with
  | done h => exact .inl ⟨rfl, h⟩
  | stops _ _ hends => exact .inr ⟨_, _, List.mem_singleton_self _, hends⟩
  | goesOn _ _ _ ih =>
    refine ih.imp_right ?_
    rintro ⟨slices, answer, hmem, hends⟩
    exact ⟨slices, answer, List.mem_cons_of_mem _ hmem, hends⟩

theorem isWilling (h : Offers writer batch taken w calls outcome total after)
    (hwriter : writer.IsWilling) : ∀ call ∈ calls, call.IsWilling := by
  have hleft : ∀ {taken}, taken < size batch → 0 < size (remaining batch taken) := by
    intro taken hlt
    rw [← length_flatten, flatten_remaining, List.length_drop, length_flatten]
    exact Nat.sub_pos_of_lt hlt
  induction h with
  | done =>
    intro call hmem
    cases hmem
  | @stops _ w _ _ _ h hwrite =>
    intro call hmem
    obtain rfl := List.mem_singleton.1 hmem
    have hwilling := hwriter w _ (hleft h)
    rwa [hwrite] at hwilling
  | @goesOn _ _ _ w _ _ _ _ h hwrite _ ih =>
    intro call hmem
    rcases List.mem_cons.1 hmem with rfl | hmem
    · have hwilling := hwriter w _ (hleft h)
      rwa [hwrite] at hwilling
    · exact ih call hmem

/-- With willing calls, all is taken that there is. -/
theorem written_of_willing (h : Offers writer batch taken w calls outcome total after)
    (hwilling : ∀ call ∈ calls, call.IsWilling) : outcome = .written := by
  rcases h.written_or_ends with ⟨hwritten, -⟩ | ⟨slices, answer, hmem, hends⟩
  · exact hwritten
  · rw [(hwilling _ hmem).ending?_eq_none] at hends
    cases hends

/-- What is written is taken. -/
theorem received_of_written (h : Offers writer batch taken w calls .written total after) :
    received calls = batch.flatten.drop taken := by
  rcases h.written_or_ends with ⟨-, hall⟩ | ⟨slices, answer, -, hends⟩
  · rw [h.received_eq]
    refine List.take_of_length_le ?_
    rw [List.length_drop, length_flatten]
    exact Nat.sub_le_sub_right hall taken
  · exact absurd hends (Call.ending?_ne_written _)

end Offers

/-! ## The calls of a write -/

/-- What the calls come to that write some bytes. -/
structure Delivery (bytes : Bytes) (calls : List Call) (outcome : Outcome) : Prop where
  /-- There are no more calls than bytes, and the one that passes them on. -/
  few : calls.length ≤ bytes.length + 1
  /-- The writer gets nothing but the bytes, in order and each of them once. -/
  isPrefix : received calls <+: bytes
  /-- The outcome is that of the call which ends the writing. -/
  ends_iff : ∀ ending, ending ≠ .written →
    (outcome = ending ↔ ∃ call ∈ calls, call.ending? = some ending)
  /-- With willing calls, the writer gets all bytes. -/
  whole : (∀ call ∈ calls, call.IsWilling) → received calls = bytes
  /-- When they are written, the writer has all bytes. -/
  written : outcome = .written → received calls = bytes

theorem Offers.ends_iff (h : Offers writer batch taken w calls outcome total after)
    {ending : Outcome} (hending : ending ≠ .written) :
    outcome = ending ↔ ∃ call ∈ calls, call.ending? = some ending := by
  constructor
  · rintro rfl
    rcases h.written_or_ends with ⟨hwritten, -⟩ | ⟨slices, answer, hmem, hends⟩
    · exact absurd hwritten hending
    · exact ⟨_, hmem, hends⟩
  · rintro ⟨call, hmem, hends⟩
    exact h.eq_of_ending? hmem hends

theorem Offers.isPrefix (h : Offers writer batch taken w calls outcome total after) :
    received calls <+: batch.flatten.drop taken :=
  h.received_eq ▸ List.take_prefix _ _

theorem Offers.length_le_left (h : Offers writer batch taken w calls outcome total after) :
    calls.length ≤ (batch.flatten.drop taken).length := by
  rw [List.length_drop, length_flatten]
  exact h.length_le

/-- A write that ends before the writer is asked to pass on what it took. -/
theorem Offers.delivery (h : Offers writer batch taken w calls outcome total after)
    (hending : outcome ≠ .written) : Delivery (batch.flatten.drop taken) calls outcome where
  few := Nat.le_succ_of_le h.length_le_left
  isPrefix := h.isPrefix
  ends_iff := fun _ => h.ends_iff
  whole := fun hwilling => absurd (h.written_of_willing hwilling) hending
  written := fun hwritten => absurd hwritten hending

/-- A write behind which the writer is asked to pass on what it took. -/
theorem Offers.delivery_flush (h : Offers writer batch taken w calls .written total after)
    (answer : Outcome) :
    Delivery (batch.flatten.drop taken) (calls ++ [.flush answer]) answer where
  few := by
    rw [List.length_append, List.length_singleton]
    exact Nat.succ_le_succ h.length_le_left
  isPrefix := by
    rw [received_concat_flush]
    exact h.isPrefix
  ends_iff := by
    intro ending hending
    constructor
    · rintro rfl
      refine ⟨.flush answer, List.mem_concat_self, ?_⟩
      cases answer with
      | written => exact absurd rfl hending
      | blocked | failed => rfl
    · rintro ⟨call, hmem, hends⟩
      rcases List.mem_append.1 hmem with hmem | hmem
      · exact absurd (h.eq_of_ending? hmem hends).symm hending
      · obtain rfl := List.mem_singleton.1 hmem
        cases answer with
        | written => cases hends
        | blocked | failed => exact Option.some.inj hends
  whole := fun _ => by rw [received_concat_flush, h.received_of_written]
  written := fun _ => by rw [received_concat_flush, h.received_of_written]

/-- A batch without bytes makes no call. -/
theorem delivery_nil : Delivery [] [] .written where
  few := Nat.zero_le _
  isPrefix := List.prefix_rfl
  ends_iff := by
    intro ending hending
    constructor
    · rintro rfl
      exact absurd rfl hending
    · rintro ⟨call, hmem, -⟩
      cases hmem
  whole := fun _ => rfl
  written := fun _ => rfl

theorem write_of_size_eq_zero (h : size batch = 0) :
    write writer batch taken w = (.written, taken, w) := by
  rw [write, if_pos h]

theorem write_of_offer (h : size batch ≠ 0)
    (hoffer : offer writer batch taken w = (outcome, total, after)) (hending : outcome ≠ .written) :
    write writer batch taken w = (outcome, total, after) := by
  rw [write, if_neg h, hoffer]
  cases outcome with
  | written => exact absurd rfl hending
  | blocked | failed => rfl

theorem write_of_flush {final : ω} {answer : Outcome} (h : size batch ≠ 0)
    (hoffer : offer writer batch taken w = (.written, total, after))
    (hflush : writer.flush after = (answer, final)) :
    write writer batch taken w = (answer, total, final) := by
  rw [write, if_neg h, hoffer]
  simp only [hflush]

/-- The slices that are left of a batch hold what is left of its bytes, and none of them is empty.
Hence writing a batch of which `taken` bytes are written ends, and is a delivery of the others; and
a willing writer gets all of them. -/
theorem write_delivers (batch : List Bytes) :
    (∀ skip, [] ∉ remaining batch skip ∧
        (remaining batch skip).flatten = batch.flatten.drop skip) ∧
      ∀ {ω : Type} (writer : Writer ω) (taken : Nat) (w : ω), ∃ calls outcome total after,
        write writer batch taken w = (outcome, total, after) ∧
          write writer.logged batch taken ([], w) = (outcome, total, calls, after) ∧
          received calls = (batch.flatten.drop taken).take (total - taken) ∧
          Delivery (batch.flatten.drop taken) calls outcome ∧
          (writer.IsWilling → received calls = batch.flatten.drop taken) := by
  refine ⟨fun skip => ⟨fun hmem => ne_nil_of_mem_remaining hmem rfl, flatten_remaining batch skip⟩,
    fun {ω} writer taken w => ?_⟩
  by_cases hsize : size batch = 0
  · refine ⟨[], .written, taken, w, write_of_size_eq_zero hsize, write_of_size_eq_zero hsize, ?_⟩
    rw [flatten_eq_nil_of_size hsize, List.drop_nil, List.take_nil]
    exact ⟨rfl, delivery_nil, fun _ => rfl⟩
  obtain ⟨calls, outcome, total, after, hoffers⟩ := exists_offers writer batch taken w
  have hlogged : offer writer.logged batch taken ([], w) = (outcome, total, calls, after) :=
    hoffers.offer_logged []
  by_cases hending : outcome = .written
  · subst hending
    rcases hflush : writer.flush after with ⟨answer, final⟩
    refine ⟨calls ++ [.flush answer], answer, total, final,
      write_of_flush hsize hoffers.offer_eq hflush,
      write_of_flush hsize hlogged (logged_flush hflush calls), ?_, hoffers.delivery_flush answer,
      fun _ => ?_⟩
    · rw [received_concat_flush, hoffers.received_eq]
    · rw [received_concat_flush, hoffers.received_of_written]
  · exact ⟨calls, outcome, total, after, write_of_offer hsize hoffers.offer_eq hending,
      write_of_offer hsize hlogged hending, hoffers.received_eq, hoffers.delivery hending,
      fun hwriter => (hoffers.delivery hending).whole (hoffers.isWilling hwriter)⟩

/-- A writer that takes no more than `limit` bytes at once. -/
def sipping (limit : Nat) : Writer Unit where
  write := fun w slices => (.took (min limit (size slices)), w)
  flush := fun w => (.written, w)

theorem sipping_isWilling (limit : Nat) : (sipping (limit + 1)).IsWilling := by
  intro _ slices hsome
  exact ⟨Nat.lt_min.2 ⟨Nat.succ_pos limit, hsome⟩, Nat.min_le_right _ _⟩

/-- The calls of a writer that takes two bytes at once, of three chunks with an empty one among
them. -/
def sips : List Call :=
  [.write [[1, 2, 3], [4, 5, 6, 7]] (.took 2), .write [[3], [4, 5, 6, 7]] (.took 2),
    .write [[5, 6, 7]] (.took 2), .write [[7]] (.took 1), .flush .written]

theorem write_delivers_sips :
    write (sipping 2).logged [[1, 2, 3], [], [4, 5, 6, 7]] 0 ([], ()) = (.written, 7, sips, ()) ∧
      (sipping 2).IsWilling ∧ received sips = [1, 2, 3, 4, 5, 6, 7] := by
  have hrun : write (sipping 2).logged [[1, 2, 3], [], [4, 5, 6, 7]] 0 ([], ()) =
      (.written, 7, sips, ()) := by decide +kernel
  obtain ⟨calls, outcome, total, after, -, hlogged, -, -, hwhole⟩ :=
    (write_delivers [[1, 2, 3], [], [4, 5, 6, 7]]).2 (sipping 2) 0 ()
  rw [hrun] at hlogged
  cases hlogged
  exact ⟨hrun, sipping_isWilling 1, hwhole (sipping_isWilling 1)⟩

-- A writer that takes nothing is asked once, and has failed.  This one counts how often it is asked.
example :
    let idle : Writer Nat :=
      { write := fun n _ => (.took 0, n + 1), flush := fun n => (.written, n) }
    write idle [[1, 2, 3], []] 0 0 = (.failed .tookNothing, 0, 1) := by decide +kernel

end FramedChannel.Batch
