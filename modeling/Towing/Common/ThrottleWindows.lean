import Towing.Common.Throttling
import Mathlib.Data.List.Pairwise

namespace Towing.Throttling

open Process

variable {s : Counters} {c e : Call} {calls mid : List Call} {n t : ℕ}

theorem after_cons : after s (c :: calls) = after (increment c s).2 calls := rfl

theorem log_eq_append {xs ys : List Entry} (h : log s calls = xs ++ ys) :
    ∃ before rest, calls = before ++ rest ∧ log s before = xs ∧ log (after s before) rest = ys := by
  induction xs generalizing s calls with
  | nil => exact ⟨[], calls, rfl, rfl, h⟩
  | cons x xs ih =>
    cases calls with
    | nil => exact absurd h (by simp [log])
    | cons c calls =>
      rw [log, List.cons_append, List.cons.injEq] at h
      obtain ⟨before, rest, rfl, hxs, hys⟩ := ih h.2
      refine ⟨c :: before, rest, rfl, ?_, hys⟩
      rw [log, hxs, h.1]

theorem log_eq_cons {x : Entry} {xs : List Entry} (h : log s calls = x :: xs) :
    ∃ c rest, calls = c :: rest ∧ x = serve c s ∧ log (increment c s).2 rest = xs := by
  cases calls with
  | nil => exact absurd h (by simp [log])
  | cons c calls =>
    rw [log, List.cons.injEq] at h
    exact ⟨c, calls, rfl, h.1.symm, h.2⟩

theorem length_log : (log s calls).length = calls.length := by
  induction calls generalizing s with
  | nil => rfl
  | cons c calls ih => rw [log, List.length_cons, List.length_cons, ih]

/-- The window is open: `n` calls were counted since it opened, and no block is in force from
`since` on. -/
structure Counting (n closes since : ℕ) (s : Counters) : Prop where
  counter : s.counter = some ⟨n, some closes⟩
  counted : 0 < n
  free : Key.live since s.block = none

/-- The block and the counter go together, at `t`. -/
structure Blocked (t : ℕ) (s : Counters) : Prop where
  counter : ∃ n, s.counter = some ⟨n, some t⟩
  block : s.block = some ⟨1, some t⟩

/-! ### One call -/

theorem not_held (h : Key.live c.time s.block = none) : ¬0 < Key.pttl c.time s.block := by
  rw [Key.pttl_of_gone h]
  decide

theorem admitted_not_blocks {x : Entry} (h : x.Admitted) : ¬x.Blocks := by
  rintro ⟨hblocked, -⟩
  rw [h] at hblocked
  exact absurd hblocked (by decide)

theorem armed_increment (h : s.Armed) : (increment c s).2.Armed := by
  by_cases hb : 0 < Key.pttl c.time s.block
  · rw [(increment_held hb).1]
    exact h
  · cases hc : Key.live c.time s.counter with
    | none =>
      rw [(increment_opens hb hc).1]
      exact ⟨Key.armed_some, h.block, by simp⟩
    | some key =>
      have hmem := Key.live_mem hc
      obtain ⟨value, expireAt⟩ := key
      have hvalue := h.counted _ hmem
      cases expireAt with
      | none => exact absurd rfl (h.counter _ hmem)
      | some closes =>
        have ht : c.time < closes := by
          by_contra hle
          rw [hmem, Key.live_of_le (by omega)] at hc
          exact absurd hc (by simp)
        by_cases hlimit : value + 1 ≤ c.limit
        · rw [(increment_counts hb hmem hvalue ht hlimit).1]
          exact ⟨Key.armed_some, h.block, by simp⟩
        · rw [(increment_blocks hb hmem hvalue ht (by omega)).1]
          exact ⟨Key.armed_some, Key.armed_some, by simp⟩

theorem armed_after (h : s.Armed) : (after s calls).Armed := by
  induction calls generalizing s with
  | nil => exact h
  | cons c calls ih => exact ih (armed_increment h)

theorem Counting.opens {since : ℕ} (h : Counting n t since s) (hle : since ≤ c.time) (ht : t ≤ c.time) :
    (serve c s).Opens := by
  apply (increment_opens (not_held (Key.gone_mono h.free hle)) _).2
  rw [h.counter]
  exact Key.live_of_le ht

theorem Counting.admits {since : ℕ} (h : Counting n t since s) (hle : since ≤ c.time) (ht : c.time < t)
    (hlimit : n + 1 ≤ c.limit) :
    (serve c s).Admitted ∧ ¬(serve c s).Opens ∧ Counting (n + 1) t c.time (increment c s).2 := by
  have hfree := Key.gone_mono h.free hle
  obtain ⟨hnext, hadmitted, hhits⟩ := increment_counts (not_held hfree) h.counter h.counted ht hlimit
  refine ⟨hadmitted, ?_, ?_⟩
  · rintro ⟨-, hone⟩
    have := h.counted
    omega
  · rw [hnext]
    exact ⟨rfl, Nat.succ_pos n, hfree⟩

theorem Counting.blocks {since : ℕ} (h : Counting n t since s) (hle : since ≤ c.time) (ht : c.time < t)
    (hlimit : c.limit < n + 1) :
    (serve c s).Blocks ∧ Blocked (c.time + c.blockDuration) (increment c s).2 := by
  obtain ⟨hnext, hblocks⟩ :=
    increment_blocks (not_held (Key.gone_mono h.free hle)) h.counter h.counted ht hlimit
  refine ⟨hblocks, ?_⟩
  rw [hnext]
  exact ⟨⟨n + 1, rfl⟩, rfl⟩

theorem Blocked.holds (h : Blocked t s) (ht : c.time < t) :
    (increment c s).2 = s ∧ (serve c s).Held ∧ (serve c s).record.isBlocked = true ∧
      (serve c s).record.timeToBlockExpire = ceilSeconds (t - c.time) := by
  have hpttl : Key.pttl c.time s.block = t - c.time := by
    rw [h.block]
    exact Key.pttl_of_lt ht
  have hpos : 0 < Key.pttl c.time s.block := by omega
  obtain ⟨hnext, hblocked, hexpire⟩ := increment_held hpos
  exact ⟨hnext, hpos, hblocked, by rw [hexpire, hpttl]⟩

theorem Blocked.opens (h : Blocked t s) (ht : t ≤ c.time) : (serve c s).Opens := by
  obtain ⟨n, hcounter⟩ := h.counter
  have hfree : Key.live c.time s.block = none := by
    rw [h.block]
    exact Key.live_of_le ht
  apply (increment_opens (not_held hfree) _).2
  rw [hcounter]
  exact Key.live_of_le ht

theorem opens_counting (hs : s.Armed) (h : (serve c s).Opens) :
    Counting 1 (c.time + c.ttl) c.time (increment c s).2 := by
  by_cases hb : 0 < Key.pttl c.time s.block
  · have hblocked := (increment_held hb).2.1
    rw [h.1] at hblocked
    exact absurd hblocked (by decide)
  · have hfree := hs.block.gone hb
    cases hc : Key.live c.time s.counter with
    | none =>
      rw [(increment_opens hb hc).1]
      exact ⟨rfl, Nat.one_pos, hfree⟩
    | some key =>
      have hmem := Key.live_mem hc
      obtain ⟨value, expireAt⟩ := key
      cases expireAt with
      | none => exact absurd rfl (hs.counter _ hmem)
      | some closes =>
        have hcounting : Counting value closes c.time s := ⟨hmem, hs.counted _ hmem, hfree⟩
        have ht : c.time < closes := by
          by_contra hle
          rw [hmem, Key.live_of_le (by omega)] at hc
          exact absurd hc (by simp)
        exfalso
        by_cases hlimit : value + 1 ≤ c.limit
        · exact (hcounting.admits le_rfl ht hlimit).2.1 h
        · exact admitted_not_blocks h.1 (hcounting.blocks le_rfl ht (by omega)).1

/-- A call that blocks: afterwards both keys stand for exactly its block duration. -/
theorem blocks_blocked (hs : s.Armed) (h : (serve c s).Blocks) :
    Blocked (c.time + c.blockDuration) (increment c s).2 := by
  have hb : ¬0 < Key.pttl c.time s.block := h.2
  cases hc : Key.live c.time s.counter with
  | none => exact absurd h (admitted_not_blocks (increment_opens hb hc).2.1)
  | some key =>
    have hmem := Key.live_mem hc
    obtain ⟨value, expireAt⟩ := key
    cases expireAt with
    | none => exact absurd rfl (hs.counter _ hmem)
    | some closes =>
      have hcounting : Counting value closes c.time s := ⟨hmem, hs.counted _ hmem, hs.block.gone hb⟩
      have ht : c.time < closes := by
        by_contra hle
        rw [hmem, Key.live_of_le (by omega)] at hc
        exact absurd hc (by simp)
      by_cases hlimit : value + 1 ≤ c.limit
      · exact absurd h (admitted_not_blocks (hcounting.admits le_rfl ht hlimit).1)
      · exact (hcounting.blocks le_rfl ht (by omega)).2

/-! ### Runs of calls -/

def InOrder (calls : List Call) : Prop := calls.Pairwise fun c d ↦ c.time ≤ d.time

/-- A block is not touched by the calls that it holds. -/
theorem Blocked.run (h : Blocked t s) (ht : ∀ c ∈ calls, c.time < t) : after s calls = s := by
  induction calls with
  | nil => rfl
  | cons c calls ih =>
    rw [after_cons, (h.holds (ht c List.mem_cons_self)).1]
    exact ih fun d hd ↦ ht d (List.mem_cons_of_mem c hd)

theorem Blocked.none_admitted (h : Blocked t s) (hclosed : ∀ x ∈ log s calls, ¬x.Opens) :
    (∀ c ∈ calls, c.time < t) ∧ ∀ x ∈ log s calls, ¬x.Admitted := by
  induction calls with
  | nil => simp [log]
  | cons c calls ih =>
    have ht : c.time < t := by
      by_contra hle
      exact hclosed _ List.mem_cons_self (h.opens (by omega))
    obtain ⟨hnext, -, hblocked, -⟩ := h.holds ht
    rw [log, hnext] at hclosed ⊢
    obtain ⟨htimes, hrefused⟩ := ih fun x hx ↦ hclosed x (List.mem_cons_of_mem _ hx)
    refine ⟨List.forall_mem_cons.mpr ⟨ht, htimes⟩, List.forall_mem_cons.mpr ⟨?_, hrefused⟩⟩
    intro hadmitted
    rw [hadmitted] at hblocked
    exact absurd hblocked (by decide)

section Window

variable {since : ℕ}

/-- What a call in an open window does, if it does not open the next one. -/
theorem Counting.step (h : Counting n t since s) (hle : since ≤ c.time) (hclosed : ¬(serve c s).Opens) :
    c.time < t ∧
      ((n + 1 ≤ c.limit ∧ (serve c s).Admitted ∧ Counting (n + 1) t c.time (increment c s).2) ∨
        (c.limit < n + 1 ∧ (serve c s).Blocks ∧ Blocked (c.time + c.blockDuration) (increment c s).2)) := by
  have ht : c.time < t := by
    by_contra hge
    exact hclosed (h.opens hle (by omega))
  refine ⟨ht, ?_⟩
  by_cases hlimit : n + 1 ≤ c.limit
  · obtain ⟨hadmitted, -, hnext⟩ := h.admits hle ht hlimit
    exact Or.inl ⟨hlimit, hadmitted, hnext⟩
  · exact Or.inr ⟨by omega, h.blocks hle ht (by omega)⟩

theorem Counting.bounded (h : Counting n t since s) (hsince : ∀ c ∈ calls, since ≤ c.time)
    (hordered : InOrder calls) (hclosed : ∀ x ∈ log s calls, ¬x.Opens) {limit : ℕ} (hn : n ≤ limit)
    (hlimits : ∀ c ∈ calls, c.limit ≤ limit) : n + (log s calls).countP Entry.Admitted ≤ limit := by
  induction calls generalizing s n since with
  | nil => simpa [log] using hn
  | cons c calls ih =>
    obtain ⟨hfirst, hrest⟩ := List.forall_mem_cons.mp hclosed
    obtain ⟨hlater, hordered⟩ := List.pairwise_cons.mp hordered
    rcases (h.step (hsince c List.mem_cons_self) hfirst).2 with ⟨hlimit, hadmitted, hnext⟩ | ⟨-, hblocks, hnext⟩
    · have hle : n + 1 ≤ limit := hlimit.trans (hlimits c List.mem_cons_self)
      have hgo := ih hnext hlater hordered hrest hle fun d hd ↦ hlimits d (List.mem_cons_of_mem c hd)
      rw [log, List.countP_cons_of_pos (by simpa using hadmitted)]
      omega
    · have hrefused := (hnext.none_admitted hrest).2
      rw [log, List.countP_cons_of_neg (by simpa using fun h ↦ admitted_not_blocks h hblocks),
        List.countP_eq_zero.mpr (by simpa using hrefused)]
      exact hn

theorem Counting.spaced (h : Counting n t since s) (hsince : ∀ c ∈ mid, since ≤ c.time)
    (hlast : since ≤ e.time) (hordered : InOrder (mid ++ [e])) (hclosed : ∀ x ∈ log s mid, ¬x.Opens)
    (hopens : (serve e (after s mid)).Opens) :
    t ≤ e.time ∨ ∃ b ∈ log s mid, b.Blocks ∧ b.call.time + b.call.blockDuration ≤ e.time := by
  induction mid generalizing s n since with
  | nil =>
    left
    by_contra hlt
    have hgone : ¬0 < Key.pttl e.time s.block := not_held (Key.gone_mono h.free hlast)
    by_cases hlimit : n + 1 ≤ e.limit
    · exact (h.admits hlast (by omega) hlimit).2.1 hopens
    · exact admitted_not_blocks hopens.1 (h.blocks hlast (by omega) (by omega)).1
  | cons c mid ih =>
    obtain ⟨hfirst, hrest⟩ := List.forall_mem_cons.mp hclosed
    obtain ⟨hlater, hordered⟩ := List.pairwise_cons.mp hordered
    rcases (h.step (hsince c List.mem_cons_self) hfirst).2 with ⟨-, -, hnext⟩ | ⟨-, hblocks, hnext⟩
    · rcases ih hnext (fun d hd ↦ hlater d (List.mem_append_left _ hd))
          (hlater e (List.mem_append_right _ (List.mem_singleton_self e))) hordered hrest hopens with hdone | ⟨b, hb, hblocks⟩
      · exact Or.inl hdone
      · exact Or.inr ⟨b, List.mem_cons_of_mem _ hb, hblocks⟩
    · right
      refine ⟨serve c s, List.mem_cons_self, hblocks, ?_⟩
      by_contra hlt
      rw [after_cons, hnext.run (hnext.none_admitted hrest).1] at hopens
      have hblocked := (hnext.holds (show e.time < c.time + c.blockDuration by
        have : (serve c s).call = c := rfl
        rw [this] at hlt
        omega)).2.2.1
      rw [hopens.1] at hblocked
      exact absurd hblocked (by decide)

theorem Counting.run (h : Counting n t since s) (hsince : ∀ c ∈ mid, since ≤ c.time)
    (hordered : InOrder mid) (hclosed : ∀ x ∈ log s mid, ¬x.Opens)
    (hfree : ∀ x ∈ log s mid, ¬x.Blocks) (hlast : since ≤ e.time) (hafter : ∀ c ∈ mid, c.time ≤ e.time) :
    (∃ later ≤ e.time, Counting (n + mid.length) t later (after s mid)) ∧
      ∀ x ∈ log s mid, x.Admitted := by
  induction mid generalizing s n since with
  | nil => exact ⟨⟨since, hlast, h⟩, by simp [log]⟩
  | cons c mid ih =>
    obtain ⟨hfirst, hrest⟩ := List.forall_mem_cons.mp hclosed
    obtain ⟨hlater, hordered⟩ := List.pairwise_cons.mp hordered
    rcases (h.step (hsince c List.mem_cons_self) hfirst).2 with ⟨-, hadmitted, hnext⟩ | ⟨-, hblocks, -⟩
    · obtain ⟨⟨later, hle, hgo⟩, hadmits⟩ := ih hnext hlater hordered hrest
        (fun x hx ↦ hfree x (List.mem_cons_of_mem _ hx)) (hafter c List.mem_cons_self)
        fun d hd ↦ hafter d (List.mem_cons_of_mem c hd)
      refine ⟨⟨later, hle, ?_⟩, List.forall_mem_cons.mpr ⟨hadmitted, hadmits⟩⟩
      rw [List.length_cons, Nat.add_comm mid.length, ← Nat.add_assoc]
      exact hgo
    · exact absurd hblocks (hfree _ List.mem_cons_self)

end Window

/-- Before the first opening there is no counter. -/
theorem admitted_opened (hs : s.counter = none) (hclosed : ∀ x ∈ log s calls, ¬x.Opens) :
    (after s calls).counter = none := by
  induction calls generalizing s with
  | nil => exact hs
  | cons c calls ih =>
    obtain ⟨hfirst, hrest⟩ := List.forall_mem_cons.mp hclosed
    rw [after_cons]
    apply ih _ hrest
    by_cases hb : 0 < Key.pttl c.time s.block
    · rw [(increment_held hb).1]
      exact hs
    · exact absurd (increment_opens hb (by rw [hs]; rfl)).2 hfirst

/-! ### What callers see -/

/-- A window is what lies between two openings: `o` opened it, and no call of `mid` opened another. -/
structure Throttled (es : List Entry) : Prop where
  bounded : ∀ (pre : List Entry) (o : Entry) (mid post : List Entry),
    es = pre ++ o :: (mid ++ post) → o.Opens → (∀ x ∈ mid, ¬x.Opens) →
    ∀ limit, (∀ x ∈ o :: mid, x.call.limit ≤ limit) → (o :: mid).countP Entry.Admitted ≤ limit
  opened : ∀ (pre : List Entry) (e : Entry) (post : List Entry), es = pre ++ e :: post → e.Admitted → e.Opens ∨ ∃ o ∈ pre, o.Opens
  spaced : ∀ (pre : List Entry) (o : Entry) (mid : List Entry) (e : Entry) (post : List Entry),
    es = pre ++ o :: (mid ++ e :: post) → o.Opens → (∀ x ∈ mid, ¬x.Opens) →
    e.Opens → o.call.time + o.call.ttl ≤ e.call.time ∨
      ∃ b ∈ mid, b.Blocks ∧ b.call.time + b.call.blockDuration ≤ e.call.time
  beyond : ∀ (pre : List Entry) (o : Entry) (mid : List Entry) (e : Entry) (post : List Entry),
    es = pre ++ o :: (mid ++ e :: post) → o.Opens →
    (∀ x ∈ mid, ¬x.Opens ∧ ¬x.Blocks) → e.call.time < o.call.time + o.call.ttl →
    (e.Blocks ↔ e.call.limit ≤ (o :: mid).countP Entry.Admitted) ∧
      (e.Admitted ↔ (o :: mid).countP Entry.Admitted < e.call.limit)
  held : ∀ (pre : List Entry) (b : Entry) (mid : List Entry) (e : Entry) (post : List Entry),
    es = pre ++ b :: (mid ++ e :: post) → b.Blocks →
    e.call.time < b.call.time + b.call.blockDuration →
    e.record.isBlocked = true ∧ e.Held ∧
      e.record.timeToBlockExpire = ceilSeconds (b.call.time + b.call.blockDuration - e.call.time)
  released : ∀ (pre : List Entry) (b : Entry) (mid : List Entry) (e : Entry) (post : List Entry),
    es = pre ++ b :: (mid ++ e :: post) → b.Blocks →
    (∀ x ∈ mid, x.call.time < b.call.time + b.call.blockDuration) →
    b.call.time + b.call.blockDuration ≤ e.call.time → e.Opens
  armed : ∀ e ∈ es, e.before.Armed

/-- A stretch of the log, with the keys that its first call found. -/
theorem log_stretch {pre mid : List Entry} {x : Entry} (h : log s calls = pre ++ x :: mid) (hs : s.Armed)
    (hordered : InOrder calls) :
    ∃ s' c rest, s'.Armed ∧ x = serve c s' ∧ InOrder (c :: rest) ∧ log (increment c s').2 rest = mid := by
  obtain ⟨before, after', rfl, -, hrest⟩ := log_eq_append h
  obtain ⟨c, rest, rfl, rfl, hlog⟩ := log_eq_cons hrest
  exact ⟨after s before, c, rest, armed_after hs, rfl, (List.pairwise_append.mp hordered).2.1, hlog⟩

/-- The same, with a later call picked out. -/
theorem log_stretch_to {pre mid post : List Entry} {x y : Entry}
    (h : log s calls = pre ++ x :: (mid ++ y :: post)) (hs : s.Armed) (hordered : InOrder calls) :
    ∃ s' c rest e, s'.Armed ∧ x = serve c s' ∧ InOrder (c :: (rest ++ [e])) ∧
      log (increment c s').2 rest = mid ∧ y = serve e (after (increment c s').2 rest) := by
  obtain ⟨s', c, rest, hs', rfl, hordered, hlog⟩ := log_stretch h hs hordered
  obtain ⟨before, later, rfl, hmid, hlater⟩ := log_eq_append hlog
  obtain ⟨e, last, rfl, rfl, -⟩ := log_eq_cons hlater
  refine ⟨s', c, before, e, hs', rfl, ?_, hmid, rfl⟩
  refine List.Pairwise.sublist ?_ hordered
  rw [List.cons_sublist_cons]
  apply List.Sublist.append_left
  rw [List.cons_sublist_cons]
  exact List.nil_sublist last

theorem times_of_order {rest : List Call} (h : InOrder (c :: (rest ++ [e]))) :
    (∀ d ∈ rest, c.time ≤ d.time) ∧ InOrder (rest ++ [e]) ∧ c.time ≤ e.time ∧ ∀ d ∈ rest, d.time ≤ e.time := by
  obtain ⟨hlater, hordered⟩ := List.pairwise_cons.mp h
  have he : e ∈ rest ++ [e] := List.mem_append_right _ (List.mem_singleton_self e)
  refine ⟨fun d hd ↦ hlater d (List.mem_append_left _ hd), hordered, hlater e he, fun d hd ↦ ?_⟩
  exact (List.pairwise_append.mp hordered).2.2 d hd e (List.mem_singleton_self e)

theorem armed_log (hs : s.Armed) : ∀ x ∈ log s calls, x.before.Armed := by
  induction calls generalizing s with
  | nil => simp [log]
  | cons c calls ih => exact List.forall_mem_cons.mpr ⟨hs, ih (armed_increment hs)⟩

theorem calls_of_log {P : Call → Prop} (h : ∀ x ∈ log s calls, P x.call) : ∀ c ∈ calls, P c := by
  induction calls generalizing s with
  | nil => simp
  | cons c calls ih =>
    obtain ⟨hfirst, hrest⟩ := List.forall_mem_cons.mp h
    exact List.forall_mem_cons.mpr ⟨hfirst, ih hrest⟩

section Served

variable (hs : s.Armed) (hordered : InOrder calls)
include hs hordered

theorem log_bounded {pre mid post : List Entry} {o : Entry} (h : log s calls = pre ++ o :: (mid ++ post))
    (ho : o.Opens) (hclosed : ∀ x ∈ mid, ¬x.Opens) {limit : ℕ}
    (hlimits : ∀ x ∈ o :: mid, x.call.limit ≤ limit) : (o :: mid).countP Entry.Admitted ≤ limit := by
  obtain ⟨s', c, rest, hs', rfl, hordered, hlog⟩ := log_stretch h hs hordered
  obtain ⟨before, later, rfl, rfl, -⟩ := log_eq_append hlog
  obtain ⟨hlater, hordered⟩ := List.pairwise_cons.mp hordered
  obtain ⟨hfirst, hlimits⟩ := List.forall_mem_cons.mp hlimits
  have hbound := (opens_counting hs' ho).bounded (fun d hd ↦ hlater d (List.mem_append_left _ hd))
    (List.pairwise_append.mp hordered).1 hclosed (c.limit_pos.trans_le hfirst) (calls_of_log hlimits)
  rw [List.countP_cons_of_pos (by simpa using ho.1)]
  omega

theorem log_spaced {pre mid post : List Entry} {o e : Entry}
    (h : log s calls = pre ++ o :: (mid ++ e :: post)) (ho : o.Opens) (hclosed : ∀ x ∈ mid, ¬x.Opens)
    (he : e.Opens) : o.call.time + o.call.ttl ≤ e.call.time ∨
      ∃ b ∈ mid, b.Blocks ∧ b.call.time + b.call.blockDuration ≤ e.call.time := by
  obtain ⟨s', c, rest, e, hs', rfl, hordered, rfl, rfl⟩ := log_stretch_to h hs hordered
  obtain ⟨hlater, hordered, hlast, -⟩ := times_of_order hordered
  exact (opens_counting hs' ho).spaced hlater hlast hordered hclosed he

theorem log_beyond {pre mid post : List Entry} {o e : Entry}
    (h : log s calls = pre ++ o :: (mid ++ e :: post)) (ho : o.Opens)
    (hmid : ∀ x ∈ mid, ¬x.Opens ∧ ¬x.Blocks) (htime : e.call.time < o.call.time + o.call.ttl) :
    (e.Blocks ↔ e.call.limit ≤ (o :: mid).countP Entry.Admitted) ∧
      (e.Admitted ↔ (o :: mid).countP Entry.Admitted < e.call.limit) := by
  obtain ⟨s', c, rest, e, hs', rfl, hordered, rfl, rfl⟩ := log_stretch_to h hs hordered
  obtain ⟨hlater, hordered, hlast, hafter⟩ := times_of_order hordered
  obtain ⟨⟨since, hle, hcounting⟩, hadmits⟩ := (opens_counting hs' ho).run hlater
    (List.pairwise_append.mp hordered).1 (fun x hx ↦ (hmid x hx).1) (fun x hx ↦ (hmid x hx).2) hlast hafter
  have hcount : (serve c s' :: log (increment c s').2 rest).countP Entry.Admitted = 1 + rest.length := by
    rw [List.countP_cons_of_pos (by simpa using ho.1), List.countP_eq_length.mpr (by simpa using hadmits),
      length_log, Nat.add_comm]
  rw [hcount]
  by_cases hlimit : 1 + rest.length + 1 ≤ e.limit
  · have hadmitted := (hcounting.admits hle htime hlimit).1
    have hnot := admitted_not_blocks hadmitted
    have hle' : ¬ e.limit ≤ 1 + rest.length := by omega
    exact ⟨iff_of_false hnot hle', iff_of_true hadmitted (by change 1 + rest.length < e.limit; omega)⟩
  · have hblocks := (hcounting.blocks hle htime (by omega)).1
    have hnot : ¬(serve e (after (increment c s').2 rest)).Admitted := fun h ↦ admitted_not_blocks h hblocks
    exact ⟨iff_of_true hblocks (by change e.limit ≤ 1 + rest.length; omega),
      iff_of_false hnot (by change ¬1 + rest.length < e.limit; omega)⟩

theorem log_held {pre mid post : List Entry} {b e : Entry}
    (h : log s calls = pre ++ b :: (mid ++ e :: post)) (hb : b.Blocks)
    (htime : e.call.time < b.call.time + b.call.blockDuration) :
    e.record.isBlocked = true ∧ e.Held ∧
      e.record.timeToBlockExpire = ceilSeconds (b.call.time + b.call.blockDuration - e.call.time) := by
  obtain ⟨s', c, rest, e, hs', rfl, hordered, -, rfl⟩ := log_stretch_to h hs hordered
  obtain ⟨-, -, -, hafter⟩ := times_of_order hordered
  have hblocked := blocks_blocked hs' hb
  rw [hblocked.run fun d hd ↦ (hafter d hd).trans_lt htime]
  obtain ⟨-, hheld, hrefused, hexpire⟩ := hblocked.holds htime
  refine ⟨hrefused, hheld, hexpire.trans ?_⟩
  rw [Nat.cast_add]
  rfl

theorem log_released {pre mid post : List Entry} {b e : Entry}
    (h : log s calls = pre ++ b :: (mid ++ e :: post)) (hb : b.Blocks)
    (hmid : ∀ x ∈ mid, x.call.time < b.call.time + b.call.blockDuration)
    (htime : b.call.time + b.call.blockDuration ≤ e.call.time) : e.Opens := by
  obtain ⟨s', c, rest, e, hs', rfl, -, rfl, rfl⟩ := log_stretch_to h hs hordered
  have hblocked := blocks_blocked hs' hb
  rw [hblocked.run (calls_of_log hmid)]
  exact hblocked.opens htime

omit hs hordered in
theorem log_opened (hempty : s.counter = none) {pre post : List Entry} {e : Entry}
    (h : log s calls = pre ++ e :: post) (he : e.Admitted) : e.Opens ∨ ∃ o ∈ pre, o.Opens := by
  by_contra hnone
  rw [not_or] at hnone
  obtain ⟨before, rest, rfl, rfl, hrest⟩ := log_eq_append h
  obtain ⟨c, last, rfl, rfl, -⟩ := log_eq_cons hrest
  have hcounter := admitted_opened hempty fun x hx hopens ↦ hnone.2 ⟨x, hx, hopens⟩
  by_cases hb : 0 < Key.pttl c.time (after s before).block
  · have hblocked := (increment_held hb).2.1
    rw [he] at hblocked
    exact absurd hblocked (by decide)
  · exact hnone.1 (increment_opens hb (by rw [hcounter]; rfl)).2

end Served

theorem throttled (calls : List Call) (hordered : InOrder calls) :
    Throttled (log .empty calls) ∧ (after .empty calls).Armed := by
  refine ⟨?_, armed_after armed_empty⟩
  exact {
    bounded := fun _ _ _ _ h ho hclosed _ hlimits ↦ log_bounded armed_empty hordered h ho hclosed hlimits
    opened := fun _ _ _ h he ↦ log_opened rfl h he
    spaced := fun _ _ _ _ _ h ho hclosed he ↦ log_spaced armed_empty hordered h ho hclosed he
    beyond := fun _ _ _ _ _ h ho hmid htime ↦ log_beyond armed_empty hordered h ho hmid htime
    held := fun _ _ _ _ _ h hb htime ↦ log_held armed_empty hordered h hb htime
    released := fun _ _ _ _ _ h hb hmid htime ↦ log_released armed_empty hordered h hb hmid htime
    armed := armed_log armed_empty }

/-- Three calls at two a minute, the third of which blocks for ten seconds, and one after the block. -/
def sampleCalls : List Call :=
  [0, 1000, 2000, 12000].map fun time ↦ ⟨time, 60000, 2, 10000, by decide, by decide, by decide⟩

theorem throttled_sample :
    Throttled (log .empty sampleCalls) ∧ (after .empty sampleCalls).Armed ∧
      (log .empty sampleCalls).map (fun e ↦ e.record.isBlocked) = [false, false, true, false] :=
  have h := throttled sampleCalls (by unfold InOrder; decide)
  ⟨h.1, h.2, by decide⟩

end Towing.Throttling
