import Towing.Realtime.LocationBatcher
import Mathlib.Data.List.Forall2
import Mathlib.Data.List.Flatten
import Mathlib.Algebra.Order.Ring.Int

namespace Towing.Realtime

open Process OrderedMap

variable {w : List LocationPing} {p : LocationPing} {b : LocationBatcher} {fleetId truckId : String}

/-- The inner map holds, for each truck heard of in the window for this fleet, a newest position. -/
structure Newest (fleetId : String) (w : List LocationPing) (byTruck : PendingByTruck) : Prop where
  nodup : (keys byTruck).Nodup
  own : ∀ truckId position, get? truckId byTruck = some position →
    position.truckId = truckId ∧ ⟨fleetId, position⟩ ∈ w
  newest : ∀ p ∈ w, p.fleetId = fleetId →
    ∃ position, get? p.position.truckId byTruck = some position ∧ p.position.atMs ≤ position.atMs

def byTruckOf (fleetId : String) (b : LocationBatcher) : PendingByTruck := (get? fleetId b.pending).getD []

structure Holds (w : List LocationPing) (b : LocationBatcher) : Prop where
  keys : keys b.pending = firsts (w.map LocationPing.fleetId)
  inner : ∀ fleetId, Newest fleetId w (byTruckOf fleetId b)

theorem holds_empty {b : LocationBatcher} (h : b.pending = []) : Holds [] b := by
  refine ⟨by rw [h]; rfl, fun fleetId ↦ ?_⟩
  rw [byTruckOf, h]
  exact ⟨List.nodup_nil, by simp [get?], by simp⟩

/-- The inner map after a ping. -/
def keep (p : LocationPing) (byTruck : PendingByTruck) : PendingByTruck :=
  match get? p.position.truckId byTruck with
  | some existing =>
    if existing.atMs > p.position.atMs then byTruck else set p.position.truckId p.position byTruck
  | none => set p.position.truckId p.position byTruck

theorem put_pending :
    (b.put p).pending = set p.fleetId (keep p (byTruckOf p.fleetId b)) b.pending := by
  rw [LocationBatcher.put, keep, byTruckOf]
  cases get? p.position.truckId ((get? p.fleetId b.pending).getD []) with
  | none => rfl
  | some existing =>
    dsimp only
    split_ifs <;> rfl

theorem Newest.replaced {byTruck : PendingByTruck} (h : Newest p.fleetId w byTruck)
    (hnewer : ∀ existing, get? p.position.truckId byTruck = some existing →
      existing.atMs ≤ p.position.atMs) :
    Newest p.fleetId (w ++ [p]) (set p.position.truckId p.position byTruck) := by
  refine ⟨nodup_set h.nodup, fun truckId position hget ↦ ?_, fun q hq hfleet ↦ ?_⟩
  · rw [get?_set] at hget
    split_ifs at hget with htruck
    · rw [Option.some_inj] at hget
      subst hget
      exact ⟨htruck.symm, List.mem_append_right _ (List.mem_singleton_self p)⟩
    · obtain ⟨heq, hmem⟩ := h.own truckId position hget
      exact ⟨heq, List.mem_append_left _ hmem⟩
  · rw [get?_set]
    by_cases htruck : q.position.truckId = p.position.truckId
    · rw [if_pos htruck]
      refine ⟨p.position, rfl, ?_⟩
      rcases List.mem_append.mp hq with hq | hq
      · obtain ⟨existing, hget, hle⟩ := h.newest q hq hfleet
        rw [htruck] at hget
        exact hle.trans (hnewer existing hget)
      · rw [List.mem_singleton.mp hq]
    · rw [if_neg htruck]
      rcases List.mem_append.mp hq with hq | hq
      · exact h.newest q hq hfleet
      · exact absurd (by rw [List.mem_singleton.mp hq]) htruck

theorem Newest.stay {byTruck : PendingByTruck} (h : Newest fleetId w byTruck)
    (hp : p.fleetId = fleetId → ∃ existing, get? p.position.truckId byTruck = some existing ∧
      p.position.atMs ≤ existing.atMs) : Newest fleetId (w ++ [p]) byTruck := by
  refine ⟨h.nodup, fun truckId position hget ↦ ?_, fun q hq hfleet ↦ ?_⟩
  · obtain ⟨heq, hmem⟩ := h.own truckId position hget
    exact ⟨heq, List.mem_append_left _ hmem⟩
  · rcases List.mem_append.mp hq with hq | hq
    · exact h.newest q hq hfleet
    · rw [List.mem_singleton.mp hq] at hfleet ⊢
      exact hp hfleet

theorem Newest.keep (h : Newest p.fleetId w (byTruckOf p.fleetId b)) :
    Newest p.fleetId (w ++ [p]) (keep p (byTruckOf p.fleetId b)) := by
  rw [Realtime.keep]
  cases hget : get? p.position.truckId (byTruckOf p.fleetId b) with
  | none =>
    apply h.replaced
    intro existing hsome
    rw [hget] at hsome
    exact absurd hsome (by simp)
  | some existing =>
    dsimp only
    split_ifs with hnewer
    · exact h.stay fun _ ↦ ⟨existing, hget, le_of_lt hnewer⟩
    · apply h.replaced
      intro other hsome
      rw [hget, Option.some_inj] at hsome
      rw [← hsome]
      exact not_lt.mp hnewer

theorem Holds.put (h : Holds w b) : Holds (w ++ [p]) (b.put p) := by
  constructor
  · rw [put_pending, keys_set, h.keys, List.map_append, List.map_singleton, firsts_concat]
  · intro fleetId
    rw [byTruckOf, put_pending, get?_set]
    by_cases hfleet : fleetId = p.fleetId
    · subst hfleet
      rw [if_pos rfl]
      exact (h.inner p.fleetId).keep
    · rw [if_neg hfleet]
      exact (h.inner fleetId).stay fun heq ↦ absurd heq.symm hfleet

/-! ### What a drain emits -/

/-- The newest timestamp of the truck among the pings. -/
def newestTime (truckId : String) (pings : List LocationPing) : Option ℤ :=
  ((pings.filter fun p ↦ p.position.truckId = truckId).map fun p ↦ p.position.atMs).max?

theorem newestTime_eq_some_iff {t : ℤ} : newestTime truckId w = some t ↔
    (∃ p ∈ w, p.position.truckId = truckId ∧ p.position.atMs = t) ∧
      ∀ p ∈ w, p.position.truckId = truckId → p.position.atMs ≤ t := by
  have hmem : ∀ t, t ∈ (w.filter fun p ↦ p.position.truckId = truckId).map (fun p ↦ p.position.atMs) ↔
      ∃ p ∈ w, p.position.truckId = truckId ∧ p.position.atMs = t := by
    simp [and_assoc]
  rw [newestTime, List.max?_eq_some_iff, hmem]
  refine and_congr_right fun _ ↦ ⟨fun h p hp htruck ↦ ?_, fun h t' ht' ↦ ?_⟩
  · exact h _ ((hmem _).mpr ⟨p, hp, htruck, rfl⟩)
  · obtain ⟨p, hp, htruck, rfl⟩ := (hmem t').mp ht'
    exact h p hp htruck

theorem newestTime_eq_none_iff : newestTime truckId w = none ↔ ∀ p ∈ w, p.position.truckId ≠ truckId := by
  simp [newestTime, List.max?_eq_none_iff]

theorem Newest.time {byTruck : PendingByTruck} (h : Newest fleetId w byTruck) :
    (get? truckId byTruck).map TruckPosition.atMs =
      newestTime truckId (w.filter fun p ↦ p.fleetId = fleetId) := by
  cases hget : get? truckId byTruck with
  | none =>
    symm
    rw [Option.map_none, newestTime_eq_none_iff]
    intro p hp htruck
    obtain ⟨hmem, hfleet⟩ := List.mem_filter.mp hp
    obtain ⟨position, hsome, -⟩ := h.newest p hmem (by simpa using hfleet)
    rw [htruck, hget] at hsome
    exact absurd hsome (by simp)
  | some position =>
    symm
    rw [Option.map_some, newestTime_eq_some_iff]
    obtain ⟨htruck, hmem⟩ := h.own truckId position hget
    refine ⟨⟨⟨fleetId, position⟩, List.mem_filter.mpr ⟨hmem, by simp⟩, htruck, rfl⟩, ?_⟩
    intro p hp htruck'
    obtain ⟨hp, hfleet⟩ := List.mem_filter.mp hp
    obtain ⟨newest, hsome, hle⟩ := h.newest p hp (by simpa using hfleet)
    rw [htruck', hget, Option.some_inj] at hsome
    rw [hsome]
    exact hle

theorem Newest.times {byTruck : PendingByTruck} (h : Newest fleetId w byTruck) :
    ((byTruck.map Prod.snd).filter fun position ↦ position.truckId = truckId).map TruckPosition.atMs =
      ((get? truckId byTruck).map TruckPosition.atMs).toList := by
  have hkeys : (byTruck.map Prod.snd).filter (fun position ↦ position.truckId = truckId) =
      (byTruck.filter fun e ↦ e.1 = truckId).map Prod.snd := by
    rw [List.filter_map]
    congr 1
    apply List.filter_congr
    intro e he
    have heq := (h.own e.1 e.2 (get?_of_mem h.nodup he)).1
    simp [heq]
  rw [hkeys, filter_key h.nodup]
  cases get? truckId byTruck <;> rfl

theorem Holds.nodup (h : Holds w b) : (OrderedMap.keys b.pending).Nodup := by
  rw [h.keys]
  exact nodup_firsts _

theorem drain_times (b : LocationBatcher) : timesIn truckId b.drain.1 =
    b.pending.flatMap fun e ↦
      ((e.2.map Prod.snd).filter fun position ↦ position.truckId = truckId).map TruckPosition.atMs := by
  simp only [LocationBatcher.drain, timesIn]
  rw [List.filterMap_eq_flatMap_toList, List.flatMap_assoc]
  apply List.flatMap_congr
  intro e _
  by_cases hempty : 0 < e.2.length
  · rw [if_pos hempty]
    simp
  · rw [if_neg hempty, List.eq_nil_of_length_eq_zero (Nat.eq_zero_of_not_pos hempty)]
    rfl

theorem Holds.times (h : Holds w b) :
    timesIn truckId b.drain.1 = (groups w).filterMap (newestTime truckId) := by
  have hkeys := flatMap_keys h.nodup fun _ (byTruck : PendingByTruck) ↦
    ((byTruck.map Prod.snd).filter fun position ↦ position.truckId = truckId).map TruckPosition.atMs
  rw [drain_times, hkeys, h.keys, groups, List.filterMap_map, List.filterMap_eq_flatMap_toList]
  apply List.flatMap_congr
  intro fleetId _
  have hinner := h.inner fleetId
  have htimes := @Newest.times w fleetId truckId _ hinner
  rw [hinner.time, byTruckOf] at htimes
  cases hget : get? fleetId b.pending with
  | none =>
    rw [hget] at htimes
    exact htimes
  | some byTruck =>
    rw [hget] at htimes
    exact htimes

theorem mem_drain {e : String × List TruckPosition} (h : e ∈ b.drain.1) :
    ∃ byTruck, (e.1, byTruck) ∈ b.pending ∧ byTruck.map Prod.snd = e.2 := by
  obtain ⟨x, hx, hsome⟩ := List.mem_filterMap.mp h
  split_ifs at hsome with hlen
  rw [Option.some_inj] at hsome
  subst hsome
  exact ⟨x.2, hx, rfl⟩

/-- A batch holds nothing but what was received in its window, fleet by fleet. -/
theorem Holds.own (h : Holds w b) {e : String × List TruckPosition} (he : e ∈ b.drain.1) :
    ∀ position ∈ e.2, ⟨e.1, position⟩ ∈ w := by
  intro position hposition
  obtain ⟨byTruck, hmem, hvalues⟩ := mem_drain he
  have hget : get? e.1 b.pending = some byTruck := get?_of_mem h.nodup hmem
  have hinner := h.inner e.1
  rw [byTruckOf, hget, Option.getD_some] at hinner
  rw [← hvalues] at hposition
  obtain ⟨x, hx, rfl⟩ := List.mem_map.mp hposition
  exact (hinner.own x.1 x.2 (get?_of_mem hinner.nodup hx)).2

theorem Holds.newest (h : Holds w b) (hp : p ∈ w) :
    ∃ e ∈ b.drain.1, e.1 = p.fleetId ∧ ∃ position ∈ e.2, position.truckId = p.position.truckId ∧
      p.position.atMs ≤ position.atMs := by
  have hinner := h.inner p.fleetId
  obtain ⟨position, hget, hle⟩ := hinner.newest p hp rfl
  cases houter : get? p.fleetId b.pending with
  | none =>
    rw [byTruckOf, houter] at hget
    exact absurd hget (by simp [get?])
  | some byTruck =>
    have hown := (hinner.own _ _ hget).1
    rw [byTruckOf, houter, Option.getD_some] at hget
    have hmem := mem_of_get? hget
    have hpos : 0 < byTruck.length := List.length_pos_of_mem hmem
    refine ⟨(p.fleetId, byTruck.map Prod.snd), ?_, rfl, position, List.mem_map_of_mem hmem, hown, hle⟩
    rw [LocationBatcher.drain]
    refine List.mem_filterMap.mpr ⟨(p.fleetId, byTruck), mem_of_get? houter, ?_⟩
    rw [if_pos hpos]

/-! ### Runs -/

/-- The batch is what a drain makes of the window. -/
def Drains (w : List LocationPing) (batch : Drained) : Prop := ∃ b, Holds w b ∧ b.drain.1 = batch

structure Follows (h : Heard) (r : Relayed) : Prop where
  closed : List.Forall₂ Drains h.closed r.batches
  current : Holds h.current r.batcher

theorem Follows.step {h : Heard} {r : Relayed} (hf : Follows h r) (op : Op) : Follows (h.step op) (r.step op) := by
  cases op with
  | ping raw =>
    refine ⟨hf.closed, ?_⟩
    simp only [Heard.step, Relayed.step, LocationBatcher.accept]
    cases RawPing.wellFormed raw with
    | none =>
      rw [Option.toList_none, List.append_nil]
      exact hf.current
    | some p => exact hf.current.put
  | drain =>
    -- The count of the dropped is no part of what is pending.
    have hcurrent : Holds h.current r.batcher.takeDroppedCount.2 := ⟨hf.current.keys, hf.current.inner⟩
    exact ⟨List.rel_append hf.closed (.cons ⟨_, hcurrent, rfl⟩ .nil), holds_empty rfl⟩

theorem follows_run (ops : List Op) : Follows (heard ops) (run ops) := by
  induction ops using List.reverseRecOn with
  | nil => exact ⟨.nil, holds_empty rfl⟩
  | append_singleton ops op ih =>
    rw [heard_concat, run_concat]
    exact ih.step op

theorem emitted_eq (truckId : String) (ops : List Op) :
    emitted truckId ops = ((heard ops).closed.flatMap groups).filterMap (newestTime truckId) := by
  rw [emitted]
  have hclosed := (follows_run ops).closed
  generalize (heard ops).closed = closed at hclosed
  generalize (run ops).batches = batches at hclosed
  induction hclosed with
  | nil => rfl
  | cons hdrains _ ih =>
    obtain ⟨b, hholds, rfl⟩ := hdrains
    rw [List.flatMap_cons, List.flatMap_cons, List.filterMap_append, hholds.times, ih]

theorem forward_iff {g h : List LocationPing} :
    (∀ t, newestTime truckId g = some t → ∀ t', newestTime truckId h = some t' → t < t') ↔
      ∀ p ∈ g, p.position.truckId = truckId → ∀ q ∈ h, q.position.truckId = truckId →
        ∃ r ∈ h, r.position.truckId = truckId ∧ p.position.atMs < r.position.atMs := by
  constructor
  · intro hlt p hp hptruck q hq hqtruck
    cases hg : newestTime truckId g with
    | none => exact absurd hptruck (newestTime_eq_none_iff.mp hg p hp)
    | some t =>
      cases hh : newestTime truckId h with
      | none => exact absurd hqtruck (newestTime_eq_none_iff.mp hh q hq)
      | some t' =>
        obtain ⟨⟨r, hr, hrtruck, rfl⟩, -⟩ := newestTime_eq_some_iff.mp hh
        have hle := (newestTime_eq_some_iff.mp hg).2 p hp hptruck
        exact ⟨r, hr, hrtruck, hle.trans_lt (hlt t hg _ hh)⟩
  · intro hforward t hg t' hh
    obtain ⟨⟨p, hp, hptruck, rfl⟩, -⟩ := newestTime_eq_some_iff.mp hg
    obtain ⟨⟨q, hq, hqtruck, -⟩, hmax⟩ := newestTime_eq_some_iff.mp hh
    obtain ⟨r, hr, hrtruck, hlt⟩ := hforward p hp hptruck q hq hqtruck
    exact hlt.trans_le (hmax r hr hrtruck)

theorem emitted_increasing_iff (ops : List Op) :
    (∀ truckId, (emitted truckId ops).Pairwise (· < ·)) ↔ OnlyForward ops := by
  refine forall_congr' fun truckId ↦ ?_
  rw [emitted_eq, List.pairwise_filterMap]
  exact List.Pairwise.iff fun g h ↦ forward_iff

theorem received_drained (ops : List Op) : received (ops ++ [.drain]) = received ops := by
  rw [received, received, heard_concat]
  simp [Heard.step]

/-- What was received before a drain has left with it or before, or something newer of the same
truck has. -/
theorem newest_drained {ops : List Op} (hp : p ∈ received ops) :
    ∃ batch ∈ (run (ops ++ [.drain])).batches, ∃ e ∈ batch, e.1 = p.fleetId ∧
      ∃ position ∈ e.2, position.truckId = p.position.truckId ∧ p.position.atMs ≤ position.atMs := by
  have hclosed := (follows_run (ops ++ [.drain])).closed
  rw [← received_drained, received, List.mem_append] at hp
  have hp : p ∈ (heard (ops ++ [.drain])).closed.flatten := by
    rcases hp with hp | hp
    · exact hp
    · rw [heard_concat] at hp
      exact absurd hp (by simp [Heard.step])
  obtain ⟨w, hw, hp⟩ := List.mem_flatten.mp hp
  generalize (heard (ops ++ [.drain])).closed = closed at hclosed hw
  generalize (run (ops ++ [.drain])).batches = batches at hclosed ⊢
  induction hclosed with
  | nil => exact absurd hw (by simp)
  | @cons w' batch _ _ hdrains _ ih =>
    rcases List.mem_cons.mp hw with rfl | hw
    · obtain ⟨b, hholds, rfl⟩ := hdrains
      exact ⟨_, List.mem_cons_self, hholds.newest hp⟩
    · obtain ⟨batch', hmem, hbatch⟩ := ih hw
      exact ⟨batch', List.mem_cons_of_mem batch hmem, hbatch⟩

theorem own_received {ops : List Op} {batch : Drained} (hbatch : batch ∈ (run ops).batches)
    {e : String × List TruckPosition} (he : e ∈ batch) :
    ∀ position ∈ e.2, ⟨e.1, position⟩ ∈ received ops := by
  intro position hposition
  have hclosed := (follows_run ops).closed
  rw [received, List.mem_append]
  left
  generalize (heard ops).closed = closed at hclosed ⊢
  generalize (run ops).batches = batches at hclosed hbatch
  induction hclosed with
  | nil => exact absurd hbatch (by simp)
  | @cons w _ _ _ hdrains _ ih =>
    rw [List.flatten_cons, List.mem_append]
    rcases List.mem_cons.mp hbatch with rfl | hbatch
    · obtain ⟨b, hholds, rfl⟩ := hdrains
      exact Or.inl (hholds.own he position hposition)
    · exact Or.inr (ih hbatch)

/-- What the maps of the fleets are promised. -/
structure NeverBack (ops : List Op) : Prop where
  increasing : ∀ truckId, (emitted truckId ops).Pairwise (· < ·)
  newest : ∀ seen rest : List Op, ops = seen ++ .drain :: rest → ∀ p ∈ received seen,
    (∀ q ∈ received seen, q.fleetId = p.fleetId → q.position.truckId = p.position.truckId →
      q.position.atMs ≤ p.position.atMs) →
    ∃ batch ∈ (run (seen ++ [.drain])).batches, ∃ e ∈ batch, e.1 = p.fleetId ∧
      ∃ position ∈ e.2, position.truckId = p.position.truckId ∧ position.atMs = p.position.atMs
  own : ∀ batch ∈ (run ops).batches, ∀ e ∈ batch, ∀ position ∈ e.2, ⟨e.1, position⟩ ∈ received ops

theorem never_back_iff (ops : List Op) : NeverBack ops ↔ OnlyForward ops := by
  constructor
  · intro h
    exact (emitted_increasing_iff ops).mp h.increasing
  · intro h
    refine ⟨(emitted_increasing_iff ops).mpr h, fun seen rest _ p hp hmax ↦ ?_, fun batch hbatch e he ↦
      own_received hbatch he⟩
    obtain ⟨batch, hbatch, e, he, hfleet, position, hposition, htruck, hle⟩ := newest_drained hp
    refine ⟨batch, hbatch, e, he, hfleet, position, hposition, htruck, le_antisymm ?_ hle⟩
    have hmem := own_received hbatch he position hposition
    rw [received_drained] at hmem
    exact hmax _ hmem hfleet htruck

/-- A ping of `t = 10`, a drain, the delayed ping of `t = 5`, a drain. -/
def delayedPing : List Op :=
  let ping (t : ℤ) : Op := .ping (some ⟨some "f", some ⟨"truck", 12, 77, none, none, t⟩⟩)
  [ping 10, .drain, ping 5, .drain]

theorem delayed_ping_back : ¬NeverBack delayedPing := by
  intro h
  have htimes := h.increasing "truck"
  have heq : emitted "truck" delayedPing = [10, 5] := by decide +kernel
  rw [heq] at htimes
  exact absurd htimes (by decide)

end Towing.Realtime
