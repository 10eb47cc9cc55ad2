import Towing.Process.ExpiringKey
import Mathlib.Data.List.Count

namespace Towing.Throttling

open Process

/-- One call of `increment`, with the instant at which its script runs. -/
structure Call where
  time : ℕ
  ttl : ℕ
  limit : ℕ
  blockDuration : ℕ
  ttl_pos : 0 < ttl
  limit_pos : 0 < limit
  blockDuration_pos : 0 < blockDuration

/-- The two keys of one tracker: the window counter and the block marker. -/
structure Counters where
  counter : Option Key
  block : Option Key
  deriving DecidableEq, Repr

def Counters.empty : Counters := ⟨none, none⟩

structure Reply where
  totalHits : ℕ
  windowPttl : ℤ
  blocked : ℕ
  blockPttl : ℤ
  deriving DecidableEq, Repr

def incrementScript (c : Call) (s : Counters) : Reply × Counters :=
  let blockPttl := Key.pttl c.time s.block
  if 0 < blockPttl then
    let held := Key.get c.time s.counter
    let heldPttl := Key.pttl c.time s.counter
    (⟨held, if heldPttl < 0 then 0 else heldPttl, 1, blockPttl⟩, s)
  else
    let hit := Key.incr c.time s.counter
    let hits := hit.value
    let counter := if hits = 1 then Key.expire c.time (some hit) c.ttl else some hit
    let pttl := Key.pttl c.time counter
    -- An expiry that is missing here is set after all.
    let windowPttl := if pttl < 0 then (c.ttl : ℤ) else pttl
    let counter := if pttl < 0 then Key.expire c.time counter c.ttl else counter
    if hits > c.limit then
      (⟨hits, c.blockDuration, 1, c.blockDuration⟩,
        ⟨Key.expire c.time counter c.blockDuration, some ⟨1, some (c.time + c.blockDuration)⟩⟩)
    else (⟨hits, windowPttl, 0, 0⟩, ⟨counter, s.block⟩)

structure ThrottlerStorageRecord where
  totalHits : ℕ
  timeToExpire : ℤ
  isBlocked : Bool
  timeToBlockExpire : ℤ
  deriving DecidableEq, Repr

/-- `Math.ceil(ms / 1000)`. -/
def ceilSeconds (ms : ℤ) : ℤ := -(-ms / 1000)

def increment (c : Call) (s : Counters) : ThrottlerStorageRecord × Counters :=
  let (reply, s') := incrementScript c s
  (⟨reply.totalHits, ceilSeconds reply.windowPttl, reply.blocked = 1, ceilSeconds reply.blockPttl⟩, s')

/-- A call as it was served, with the keys it found. -/
structure Entry where
  call : Call
  before : Counters
  record : ThrottlerStorageRecord

def serve (c : Call) (s : Counters) : Entry := ⟨c, s, (increment c s).1⟩

def log (s : Counters) : List Call → List Entry
  | [] => []
  | c :: calls => serve c s :: log (increment c s).2 calls

def after (s : Counters) (calls : List Call) : Counters := calls.foldl (fun s c ↦ (increment c s).2) s

namespace Entry

variable (e : Entry)

def Admitted : Prop := e.record.isBlocked = false

instance : DecidablePred Admitted := fun e ↦ inferInstanceAs (Decidable (e.record.isBlocked = false))

/-- The first hit of a window. -/
def Opens : Prop := e.Admitted ∧ e.record.totalHits = 1

/-- A block was in force when the call came. -/
def Held : Prop := 0 < Key.pttl e.call.time e.before.block

/-- The call is refused and no earlier block is the reason. -/
def Blocks : Prop := e.record.isBlocked = true ∧ ¬e.Held

end Entry

structure Counters.Armed (s : Counters) : Prop where
  counter : Key.Armed s.counter
  block : Key.Armed s.block
  counted : ∀ key ∈ s.counter, 0 < key.value

variable {c : Call} {s : Counters} {n t : ℕ}

theorem armed_empty : Counters.empty.Armed :=
  ⟨Key.armed_none, Key.armed_none, fun _ h ↦ absurd h (by simp [Counters.empty])⟩

/-! ### The four exits of the script -/

theorem increment_held (h : 0 < Key.pttl c.time s.block) :
    (increment c s).2 = s ∧ (serve c s).record.isBlocked = true ∧
      (serve c s).record.timeToBlockExpire = ceilSeconds (Key.pttl c.time s.block) := by
  simp [serve, increment, incrementScript, h]

theorem increment_opens (hb : ¬0 < Key.pttl c.time s.block) (hc : Key.live c.time s.counter = none) :
    (increment c s).2 = ⟨some ⟨1, some (c.time + c.ttl)⟩, s.block⟩ ∧ (serve c s).Opens := by
  have hlt : c.time < c.time + c.ttl := Nat.lt_add_of_pos_right c.ttl_pos
  have hpttl : ¬ Key.pttl c.time (some ⟨1, some (c.time + c.ttl)⟩) < 0 := by
    rw [Key.pttl_of_lt hlt]
    omega
  have hlimit : ¬ 1 > c.limit := by
    have := c.limit_pos
    omega
  simp [serve, increment, incrementScript, hb, Key.incr_of_gone hc, Key.expire_immortal, hpttl, hlimit,
    Entry.Opens, Entry.Admitted]

theorem increment_counts (hb : ¬0 < Key.pttl c.time s.block) (hc : s.counter = some ⟨n, some t⟩)
    (hn : 0 < n) (ht : c.time < t) (hlimit : n + 1 ≤ c.limit) :
    (increment c s).2 = ⟨some ⟨n + 1, some t⟩, s.block⟩ ∧ (serve c s).Admitted ∧
      (serve c s).record.totalHits = n + 1 := by
  have hpttl : ¬ Key.pttl c.time (some ⟨n + 1, some t⟩) < 0 := by
    rw [Key.pttl_of_lt ht]
    omega
  have hmore : ¬ n + 1 > c.limit := by omega
  have hfirst : n ≠ 0 := Nat.ne_of_gt hn
  simp [serve, increment, incrementScript, hb, hc, Key.incr_of_lt ht, hfirst, hpttl, hmore, Entry.Admitted]

theorem increment_blocks (hb : ¬0 < Key.pttl c.time s.block) (hc : s.counter = some ⟨n, some t⟩)
    (hn : 0 < n) (ht : c.time < t) (hlimit : c.limit < n + 1) :
    (increment c s).2 = ⟨some ⟨n + 1, some (c.time + c.blockDuration)⟩,
      some ⟨1, some (c.time + c.blockDuration)⟩⟩ ∧ (serve c s).Blocks := by
  have hpttl : ¬ Key.pttl c.time (some ⟨n + 1, some t⟩) < 0 := by
    rw [Key.pttl_of_lt ht]
    omega
  have hfirst : n ≠ 0 := Nat.ne_of_gt hn
  simp [serve, increment, incrementScript, hb, hc, Key.incr_of_lt ht, hfirst, hpttl, hlimit,
    Key.expire_of_lt ht, Entry.Blocks, Entry.Held]

end Towing.Throttling
