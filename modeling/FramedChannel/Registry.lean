/-!
# Registries

A registry maps keys to values, and lists both in the order of the keys.

* `insert` and `remove` give the value that the key had before.
* `get?_insert` says what a look-up finds after an insertion, and
  `get?_remove` what it finds after a removal.
-/

namespace FramedChannel

/-- Values under keys, in the order of the keys. -/
structure Registry (α : Type) where
  entries : List (String × α) := []
  deriving Repr

namespace Registry

variable {α : Type}

/-- The value of the first entry with a key. -/
def find (key : String) : List (String × α) → Option α
  | [] => none
  | (k, v) :: rest => if k = key then some v else find key rest

/-- The value under a key. -/
def get? (r : Registry α) (key : String) : Option α :=
  find key r.entries

/-- Whether a key has a value. -/
def contains (r : Registry α) (key : String) : Bool :=
  (r.get? key).isSome

/-- The number of keys. -/
def size (r : Registry α) : Nat :=
  r.entries.length

/-- Whether there is no key. -/
def isEmpty (r : Registry α) : Bool :=
  r.entries.isEmpty

/-- The keys. -/
def keys (r : Registry α) : List String :=
  r.entries.map (·.1)

/-- The values. -/
def values (r : Registry α) : List α :=
  r.entries.map (·.2)

/-- Entries with one key put in its place. -/
def place (key : String) (value : α) : List (String × α) → List (String × α)
  | [] => [(key, value)]
  | (k, v) :: rest =>
    if key = k then (key, value) :: rest
    else if key < k then (key, value) :: (k, v) :: rest
    else (k, v) :: place key value rest

/-- Puts a value under a key, and gives the value that it replaces. -/
def insert (r : Registry α) (key : String) (value : α) : Option α × Registry α :=
  (r.get? key, ⟨place key value r.entries⟩)

/-- Takes the value from under a key. -/
def remove (r : Registry α) (key : String) : Option α × Registry α :=
  (r.get? key, ⟨r.entries.filter (·.1 != key)⟩)

theorem find_place (key other : String) (value : α) (entries : List (String × α)) :
    find other (place key value entries) = if key = other then some value else find other entries := by
  induction entries with
  | nil => rfl
  | cons entry rest ih => grind [place, find]

theorem find_filter_ne (key other : String) (entries : List (String × α)) :
    find other (entries.filter (·.1 != key)) = if key = other then none else find other entries := by
  induction entries with
  | nil => simp [find]
  | cons entry rest ih => grind [find]

/-- A key has the value that was put under it last. -/
theorem get?_insert (r : Registry α) (key other : String) (value : α) :
    (r.insert key value).2.get? other = if key = other then some value else r.get? other :=
  find_place key other value r.entries

/-- A removed key has no value, and all others keep theirs. -/
theorem get?_remove (r : Registry α) (key other : String) :
    (r.remove key).2.get? other = if key = other then none else r.get? other :=
  find_filter_ne key other r.entries

end Registry

end FramedChannel
