import Towing.Common.Intercepted
import Towing.Common.Fingerprints

namespace Towing.Common

open Towing.Process

variable {ω τ ε η β : Type} [Store ω τ] [DecidableEq η] {shaKey : String → String}
  {shaBody : Json × Json → η} {Asks : HttpRequest → Prop}

namespace Interception

variable (w : Interception η β τ)

/-- What a step may do to a slot: a marker is won, a response is stored, the own marker
is deleted, or nothing. -/
theorem records_run (l : InterceptStep ω ε η β) (key : List Char) :
    (w.run l).records key = w.records key ∨
      (∃ hash holder, l = .setNX key hash holder ∧ w.record key = none ∧
        (w.run l).records key = some (.inFlight hash holder, w.now + inFlightTtlSeconds * 1000)) ∨
      (∃ hash holder status body, l = .complete key hash holder status body ∧ w.mayComplete key hash holder = true ∧
        (w.run l).records key = some (.completed hash status body, w.now + completedTtlSeconds * 1000)) ∨
      ∃ hash holder, l = .release key hash holder ∧ w.mayRelease key hash holder = true ∧
        (w.run l).records key = none := by
  cases l with
  | setNX key' hash holder =>
    by_cases hfree : (w.record key').isNone
    · by_cases hkey : key = key'
      · subst hkey
        exact .inr (.inl ⟨hash, holder, rfl, by simpa using hfree, by simp [run, hfree, put]⟩)
      · exact .inl (by simp [run, hfree, put, hkey])
    · exact .inl (by simp [run, hfree])
  | complete key' hash holder status body =>
    by_cases hmay : w.mayComplete key' hash holder = true
    · by_cases hkey : key = key'
      · subst hkey
        exact .inr (.inr (.inl ⟨hash, holder, status, body, rfl, hmay, by simp [run, hmay, put]⟩))
      · exact .inl (by simp [run, hmay, put, hkey])
    · exact .inl (by simp [run, hmay])
  | release key' hash holder =>
    by_cases hmay : w.mayRelease key' hash holder = true
    · by_cases hkey : key = key'
      · subst hkey
        exact .inr (.inr (.inr ⟨hash, holder, rfl, hmay, by simp [run, hmay]⟩))
      · exact .inl (by simp [run, hmay, hkey])
    · exact .inl (by simp [run, hmay])
  | _ => exact .inl rfl

/-- Neither the clock nor the holders go back. -/
theorem run_forward (l : InterceptStep ω ε η β) :
    w.now ≤ (w.run l).now ∧ w.nextHolder ≤ (w.run l).nextHolder := by
  cases l with
  | setNX _ _ _ | complete _ _ _ _ _ | release _ _ _ =>
    simp only [run]
    split_ifs <;> simp [put]
  | _ => simp [run]

omit [DecidableEq η] in
theorem record_of_records {key : List Char} {record : IdempotencyRecord η β} {expiry : ℕ}
    (h : w.records key = some (record, expiry)) (hnow : w.now < expiry) : w.record key = some record := by
  simp [Interception.record, h, hnow]

omit [DecidableEq η] in
theorem records_of_record {key : List Char} {record : IdempotencyRecord η β} (h : w.record key = some record) :
    ∃ expiry, w.records key = some (record, expiry) ∧ w.now < expiry := by
  unfold Interception.record at h
  obtain ⟨⟨record', expiry⟩, hfilter, rfl⟩ := Option.map_eq_some_iff.mp h
  obtain ⟨hrecords, hnow⟩ := Option.filter_eq_some_iff.mp hfilter
  exact ⟨expiry, hrecords, by simpa using hnow⟩

end Interception

/-- Request `n` is `req`, and drew the holder for its slot. -/
def Drawn (shaKey : String → String) (es : List (ℕ × Event (InterceptStep ω ε η β) (Interception η β τ))) (n : ℕ)
    (req : HttpRequest) (key : List Char) (holder : ℕ) : Prop :=
  ∃ i d, Makes es i n d ∧ Draws shaKey req key holder d

variable {w w' : Interception η β τ} {cs : List (Call (InterceptStep ω ε η β) (Interception η β τ) ε)}
  {es : List (ℕ × Event (InterceptStep ω ε η β) (Interception η β τ))} {i j k m n o : ℕ}
  {d d' e f g : Event (InterceptStep ω ε η β) (Interception η β τ)} {key key' : List Char} {hash : η}
  {holder holder' : ℕ} {req req' : HttpRequest} {record : IdempotencyRecord η β}

theorem run_at (h : Calls (Intercepts ω τ ε β shaKey shaBody Asks) w cs w' es) (he : Makes es i n e) :
    e.after = e.before.run e.label := h.commit_at he

/-- Time goes on, and holders are drawn ever higher. -/
theorem forward (h : Calls (Intercepts ω τ ε β shaKey shaBody Asks) w cs w' es) (hij : i < j)
    (he : Makes es i n e) (hf : Makes es j m f) :
    e.after.now ≤ f.before.now ∧ e.after.nextHolder ≤ f.before.nextHolder := by
  refine h.chained.rel_after (R := fun s t ↦ s.now ≤ t.now ∧ s.nextHolder ≤ t.nextHolder) (fun s ↦ by omega)
    (fun s t u hst htu ↦ by omega) (fun e he ↦ ?_) hij he.event hf.event
  obtain ⟨⟨n, e⟩, hmem, rfl⟩ := List.mem_map.mp he
  rw [h.committed _ hmem]
  exact e.before.run_forward e.label

theorem now_le (h : Calls (Intercepts ω τ ε β shaKey shaBody Asks) w cs w' es) (hij : i ≤ j)
    (he : Makes es i n e) (hf : Makes es j m f) : e.before.now ≤ f.before.now := by
  rcases Nat.eq_or_lt_of_le hij with rfl | hlt
  · obtain ⟨-, rfl⟩ := he.unique hf
    exact Nat.le_refl _
  · have hnow := (forward h hlt he hf).1
    have hstep := (e.before.run_forward e.label).1
    rw [run_at h he] at hnow
    omega

/-- No two draws come to the same holder. -/
theorem draws_apart (h : Calls (Intercepts ω τ ε β shaKey shaBody Asks) w cs w' es) (hij : i < j)
    (hd : Makes es i n d) (hlabel : d.label = .randomUUID req) (hd' : Makes es j m d') :
    d.before.nextHolder < d'.before.nextHolder := by
  have hnext := (forward h hij hd hd').2
  rw [run_at h hd, hlabel] at hnext
  exact hnext

/-- A request draws first, and once. -/
theorem draw_first (h : Calls (Intercepts ω τ ε β shaKey shaBody Asks) w cs w' es)
    (hd : Makes es i n d) (hlabel : d.label = .randomUUID req) (he : Makes es j n e) : i ≤ j := by
  have hjustified := justified_of_makes h hd
  rw [hlabel] at hjustified
  cases hjustified with
  | draw hpast _ _ =>
    by_contra hlt
    have hmem := mem_own_of_makes (by omega) he (j := i)
    rw [hpast] at hmem
    cases hmem
  | handles hhandles _ _ _ => cases hhandles

theorem Drawn.asked (h : Calls (Intercepts ω τ ε β shaKey shaBody Asks) w cs w' es)
    (hn : Drawn shaKey es n req key holder) :
    Asks req ∧ ':' ∉ req.tenant.toList ∧ req.slot shaKey = some key := by
  obtain ⟨i, d, hd, hlabel, hslot, -⟩ := hn
  have hjustified := justified_of_makes h hd
  rw [hlabel] at hjustified
  cases hjustified with
  | draw _ hasks htenant => exact ⟨hasks, htenant, hslot⟩
  | handles hhandles _ _ _ => cases hhandles

theorem Drawn.unique (h : Calls (Intercepts ω τ ε β shaKey shaBody Asks) w cs w' es)
    (hn : Drawn shaKey es n req key holder) (hn' : Drawn shaKey es n req' key' holder') :
    req = req' ∧ key = key' ∧ holder = holder' := by
  obtain ⟨i, d, hd, hlabel, hslot, rfl⟩ := hn
  obtain ⟨j, d', hd', hlabel', hslot', rfl⟩ := hn'
  have hij := draw_first h hd hlabel hd'
  have hji := draw_first h hd' hlabel' hd
  obtain rfl : i = j := by omega
  obtain ⟨-, rfl⟩ := hd.unique hd'
  cases hlabel.symm.trans hlabel'
  exact ⟨rfl, Option.some.inj (hslot.symm.trans hslot'), rfl⟩

theorem Drawn.same (h : Calls (Intercepts ω τ ε β shaKey shaBody Asks) w cs w' es)
    (hn : Drawn shaKey es n req key holder) (hm : Drawn shaKey es m req' key' holder) : n = m := by
  obtain ⟨i, d, hd, hlabel, -, rfl⟩ := hn
  obtain ⟨j, d', hd', hlabel', -, heq⟩ := hm
  rcases Nat.lt_trichotomy i j with hlt | rfl | hlt
  · have := draws_apart h hlt hd hlabel hd'
    omega
  · exact (hd.unique hd').1
  · have := draws_apart h hlt hd' hlabel' hd
    omega

omit [Store ω τ] [DecidableEq η] in
theorem drawn_of_mem {past : List (Event (InterceptStep ω ε η β) (Interception η β τ))} (hpast : past = own n (es.take i))
    (hd : d ∈ past) (hdraws : Draws shaKey req key holder d) : Drawn shaKey es n req key holder := by
  obtain ⟨j, -, hd⟩ := makes_of_own (hpast ▸ hd)
  exact ⟨j, d, hd, hdraws⟩

/-- Whose marker the label names. -/
theorem drawn_of_setNX (h : Calls (Intercepts ω τ ε β shaKey shaBody Asks) w cs w' es) (he : Makes es i n e)
    (hl : e.label = .setNX key hash holder) :
    ∃ req, Drawn shaKey es n req key holder ∧ hash = fingerprint shaBody req := by
  have hjustified := justified_of_makes h he
  rw [hl] at hjustified
  cases hjustified with
  | setNX hd hdraws _ => exact ⟨_, drawn_of_mem rfl hd hdraws, rfl⟩
  | handles hhandles _ _ _ => cases hhandles

theorem drawn_of_complete (h : Calls (Intercepts ω τ ε β shaKey shaBody Asks) w cs w' es) {status : ℕ} {body : β}
    (he : Makes es i n e) (hl : e.label = .complete key hash holder status body) :
    ∃ req, Drawn shaKey es n req key holder ∧ hash = fingerprint shaBody req := by
  have hjustified := justified_of_makes h he
  rw [hl] at hjustified
  cases hjustified with
  | complete hd hdraws _ _ _ => exact ⟨_, drawn_of_mem rfl hd hdraws, rfl⟩
  | handles hhandles _ _ _ => cases hhandles

theorem drawn_of_release (h : Calls (Intercepts ω τ ε β shaKey shaBody Asks) w cs w' es) (he : Makes es i n e)
    (hl : e.label = .release key hash holder) :
    ∃ req, Drawn shaKey es n req key holder ∧ hash = fingerprint shaBody req := by
  have hjustified := justified_of_makes h he
  rw [hl] at hjustified
  cases hjustified with
  | release hd hdraws _ _ _ => exact ⟨_, drawn_of_mem rfl hd hdraws, rfl⟩
  | handles hhandles _ _ _ => cases hhandles

/-- The end of a run comes once, and nothing of the handler after it. -/
theorem ends_last (h : Calls (Intercepts ω τ ε β shaKey shaBody Asks) w cs w' es) (he : Makes es i n e)
    (hends : e.label.ends = true) (hf : Makes es j n f)
    (hlater : f.label.ends = true ∨ f.label.handles = true) : j ≤ i := by
  by_contra hlt
  have hmem : e ∈ own n (es.take j) := mem_own_of_makes (by omega) he
  have hnone (hall : ∀ q ∈ own n (es.take j), q.label.ends = false) : False := by
    rw [hall e hmem] at hends
    cases hends
  have hjustified := justified_of_makes h hf
  generalize f.label = l at hjustified hlater
  cases hjustified with
  | complete _ _ _ _ hall => exact hnone hall
  | release _ _ _ _ hall => exact hnone hall
  | handles _ _ _ hall => exact hnone hall
  | passed hall =>
    have hwork := hall e hmem
    rw [InterceptStep.ends_of_isWork hwork] at hends
    cases hends
  | _ => rcases hlater with hlater | hlater <;> cases hlater

/-- Who finds a record never wins the marker. -/
theorem unwon_of_finds (h : Calls (Intercepts ω τ ε β shaKey shaBody Asks) w cs w' es) (hg : Makes es k n g)
    (hfinds : Finds key record g) (he : Makes es i n e) : ¬Wins key' holder' e := by
  intro hwins
  rcases Nat.lt_trichotomy i k with hlt | rfl | hlt
  · have hjustified := justified_of_makes h hg
    rw [hfinds.1] at hjustified
    cases hjustified with
    | get _ _ hwaiting => exact hwaiting.wins e (mem_own_of_makes hlt he) key' holder' hwins
    | handles hhandles _ _ _ => cases hhandles
  · obtain ⟨-, rfl⟩ := he.unique hg
    obtain ⟨hash, hlabel, -⟩ := hwins
    cases hfinds.1.symm.trans hlabel
  · have hjustified := justified_of_makes h he
    obtain ⟨hash, hlabel, -⟩ := hwins
    rw [hlabel] at hjustified
    cases hjustified with
    | setNX _ _ hwaiting => exact hwaiting.finds g (mem_own_of_makes hlt hg) key record hfinds
    | handles hhandles _ _ _ => cases hhandles

/-- Nor does who is told that the request is still processed. -/
theorem unwon_of_contested (h : Calls (Intercepts ω τ ε β shaKey shaBody Asks) w cs w' es) (hg : Makes es k n g)
    (hl : g.label = .respond req .stillProcessed) (he : Makes es i n e) : ¬Wins key' holder' e := by
  intro hwins
  obtain ⟨hash, hlabel, hfree⟩ := hwins
  rcases Nat.lt_trichotomy i k with hlt | rfl | hlt
  · have hjustified := justified_of_makes h hg
    rw [hl] at hjustified
    cases hjustified with
    | respond _ hreplies =>
      cases hreplies with
      | contested _ _ _ _ hwins => exact hwins e (mem_own_of_makes hlt he) key' holder' ⟨hash, hlabel, hfree⟩
    | handles hhandles _ _ _ => cases hhandles
  · obtain ⟨-, rfl⟩ := he.unique hg
    cases hl.symm.trans hlabel
  · have hjustified := justified_of_makes h he
    rw [hlabel] at hjustified
    cases hjustified with
    | setNX _ _ hwaiting =>
      have := hwaiting.responds g (mem_own_of_makes hlt hg)
      rw [hl] at this
      cases this
    | handles hhandles _ _ _ => cases hhandles

/-- A request that never wins a marker changes nothing. -/
theorem idle_of_unwon (h : Calls (Intercepts ω τ ε β shaKey shaBody Asks) w cs w' es)
    (hn : Drawn shaKey es n req key holder) (hunwon : ∀ i e, Makes es i n e → ∀ key holder, ¬Wins key holder e)
    (he : Makes es i n e) : Idle e := by
  have hjustified := justified_of_makes h he
  have hnone {r : Event (InterceptStep ω ε η β) (Interception η β τ)} {key : List Char} {holder : ℕ}
      (hr : r ∈ own n (es.take i)) (hwins : Wins key holder r) : False := by
    obtain ⟨j, -, hr⟩ := makes_of_own hr
    exact hunwon j r hr key holder hwins
  unfold Idle
  rw [run_at h he]
  cases hlabel : e.label with
  | setNX key' hash' holder' =>
    have hheld : ¬(e.before.record key').isNone := fun hfree ↦
      hunwon i e he key' holder' ⟨hash', hlabel, by simpa using hfree⟩
    simp [Interception.run, hheld]
  | work l =>
    rw [hlabel] at hjustified
    cases hjustified with
    | handles _ hr hwins _ => exact (hnone hr hwins).elim
    | passed hall =>
      obtain ⟨j, d, hd, hdraw, -⟩ := hn
      rcases Nat.eq_or_lt_of_le (draw_first h hd hdraw he) with rfl | hlt
      · obtain ⟨-, rfl⟩ := hd.unique he
        cases hdraw.symm.trans hlabel
      · have := hall d (mem_own_of_makes hlt hd)
        rw [hdraw] at this
        cases this
  | complete _ _ _ _ _ =>
    rw [hlabel] at hjustified
    cases hjustified with
    | complete _ _ hr hwins _ => exact (hnone hr hwins).elim
    | handles hhandles _ _ _ => cases hhandles
  | release _ _ _ =>
    rw [hlabel] at hjustified
    cases hjustified with
    | release _ _ hr hwins _ => exact (hnone hr hwins).elim
    | handles hhandles _ _ _ => cases hhandles
  | _ => exact ⟨rfl, rfl⟩

/-- The step puts a record into the slot. -/
def Puts (key : List Char) (e : Event (InterceptStep ω ε η β) (Interception η β τ)) : Prop :=
  (∃ holder, Wins key holder e) ∨ ∃ hash status body, Stores key hash status body e

/-- What is in the slot at commit `k` has been put there by request `n`. -/
def OccupiedBy (es : List (ℕ × Event (InterceptStep ω ε η β) (Interception η β τ))) (k : ℕ) (key : List Char) (n : ℕ) :
    Prop :=
  ∃ i e, i < k ∧ Makes es i n e ∧ Puts key e ∧ ∀ j o f, i < j → j < k → Makes es j o f → ¬Puts key f

theorem wins_leaves (h : Calls (Intercepts ω τ ε β shaKey shaBody Asks) w cs w' es) (he : Makes es i n e)
    (hl : e.label = .setNX key hash holder) (hfree : e.before.record key = none) :
    e.after.records key = some (.inFlight hash holder, e.before.now + inFlightTtlSeconds * 1000) := by
  rw [run_at h he, hl]
  simp [Interception.run, hfree, Interception.put]

theorem stores_leaves (h : Calls (Intercepts ω τ ε β shaKey shaBody Asks) w cs w' es) {status : ℕ} {body : β}
    (he : Makes es i n e) (hstores : Stores key hash status body e) :
    e.after.records key = some (.completed hash status body, e.before.now + completedTtlSeconds * 1000) := by
  obtain ⟨holder, hl, hmay⟩ := hstores
  rw [run_at h he, hl]
  simp [Interception.run, hmay, Interception.put]

theorem slot_at (h : Calls (Intercepts ω τ ε β shaKey shaBody Asks) w cs w' es) (he : Makes es i n e)
    (key : List Char) :
    e.after.records key = e.before.records key ∨ Puts key e ∨
      (∃ hash holder, e.label = .release key hash holder ∧ e.before.mayRelease key hash holder = true ∧
        e.after.records key = none) := by
  have hrun := e.before.records_run e.label key
  rw [← run_at h he] at hrun
  rcases hrun with hsame | ⟨hash, holder, hl, hfree, -⟩ | ⟨hash, holder, status, body, hl, hmay, -⟩ | hrelease
  · exact .inl hsame
  · exact .inr (.inl (.inl ⟨holder, hash, hl, hfree⟩))
  · exact .inr (.inl (.inr ⟨hash, status, body, holder, hl, hmay⟩))
  · exact .inr (.inr hrelease)

/-- A response that is stored stays until it expires. -/
theorem completed_stays (h : Calls (Intercepts ω τ ε β shaKey shaBody Asks) w cs w' es) {status : ℕ} {body : β}
    (he : Makes es i n e) (hstores : Stores key hash status body e) (hij : i < j) (hf : Makes es j m f)
    (hnow : f.before.now < e.before.now + completedTtlSeconds * 1000) :
    f.before.record key = some (.completed hash status body) := by
  let expiry := e.before.now + completedTtlSeconds * 1000
  let I : Interception η β τ → Prop := fun t ↦ t.now < expiry → t.records key = some (.completed hash status body, expiry)
  have hkept := (h.kept_after (I := I) he (fun _ ↦ stores_leaves h he hstores) fun j m f hij hf hI hnow ↦ ?_).2
  · exact Interception.record_of_records _ (hkept j m f hij hf hnow) hnow
  · have hforward := (f.before.run_forward f.label).1
    rw [← run_at h hf] at hforward
    have hrecords := hI (by omega)
    have hrecord := Interception.record_of_records _ hrecords (by omega)
    rcases slot_at h hf key with hsame | (⟨holder, hash', hl, hfree⟩ | ⟨hash', status', body', holder, hl, hmay⟩) |
      ⟨hash', holder, hl, hmay, -⟩
    · rw [hsame, hrecords]
    · rw [hrecord] at hfree
      cases hfree
    · simp [Interception.mayComplete, hrecord, IdempotencyRecord.isMarker] at hmay
    · simp [Interception.mayRelease, hrecord, IdempotencyRecord.isMarker] at hmay

/-- A marker stays until it expires, as long as its request has not ended its run. -/
theorem marker_stays (h : Calls (Intercepts ω τ ε β shaKey shaBody Asks) w cs w' es) (he : Makes es i n e)
    (hwins : Wins key holder e) (hg : Makes es k o g) (hends : ∀ q ∈ own n (es.take k), q.label.ends = false)
    (hij : i < j) (hjk : j < k) (hf : Makes es j m f) (hnow : f.before.now < e.before.now + inFlightTtlSeconds * 1000) :
    f.before.record key ≠ none := by
  obtain ⟨hash, hl, hfree⟩ := hwins
  obtain ⟨req, hn, -⟩ := drawn_of_setNX h he hl
  obtain ⟨cs', h'⟩ := h.before hg
  let expiry := e.before.now + inFlightTtlSeconds * 1000
  let I : Interception η β τ → Prop := fun t ↦ t.now < expiry → t.records key = some (.inFlight hash holder, expiry)
  have hkept := (h'.kept_after (I := I) (he.take (by omega)) (fun _ ↦ wins_leaves h he hl hfree)
    fun j m f hij hf hI hnow ↦ ?_).2
  · rw [Interception.record_of_records _ (hkept j m f hij (hf.take hjk) hnow) hnow]
    exact Option.some_ne_none _
  · have hforward := (f.before.run_forward f.label).1
    rw [← run_at h hf.of_take.2] at hforward
    have hrecords := hI (by omega)
    have hrecord := Interception.record_of_records _ hrecords (by omega)
    have hother {req' : HttpRequest} (hm : Drawn shaKey es m req' key holder) (hended : f.label.ends = true) : False := by
      obtain rfl := hn.same h hm
      have hmem : f ∈ own n (es.take k) :=
        List.mem_map.mpr ⟨(n, f), List.mem_filter.mpr ⟨List.mem_of_getElem? hf, by simp⟩, rfl⟩
      rw [hends f hmem] at hended
      cases hended
    rcases slot_at h hf.of_take.2 key with hsame | (⟨holder', hash', hl', hfree'⟩ | ⟨hash', status, body, holder', hl', hmay⟩) |
      ⟨hash', holder', hl', hmay, -⟩
    · rw [hsame, hrecords]
    · rw [hrecord] at hfree'
      cases hfree'
    · obtain ⟨-, rfl⟩ : hash = hash' ∧ holder = holder' := by
        simpa [Interception.mayComplete, hrecord, IdempotencyRecord.isMarker] using hmay
      obtain ⟨req', hm, -⟩ := drawn_of_complete h hf.of_take.2 hl'
      exact (hother hm (by rw [hl']; rfl)).elim
    · obtain ⟨-, rfl⟩ : hash = hash' ∧ holder = holder' := by
        simpa [Interception.mayRelease, hrecord, IdempotencyRecord.isMarker] using hmay
      obtain ⟨req', hm, -⟩ := drawn_of_release h hf.of_take.2 hl'
      exact (hother hm (by rw [hl']; rfl)).elim

/-- Something in a slot has been put there by somebody. -/
theorem exists_occupier (h : Calls (Intercepts ω τ ε β shaKey shaBody Asks) w cs w' es) (hempty : w.records key = none)
    (hg : Makes es k o g) (hrecord : g.before.records key ≠ none) : ∃ n, OccupiedBy es k key n := by
  induction k generalizing o g with
  | zero => exact absurd (h.chained.first hg.event ▸ hempty) hrecord
  | succ k ih =>
    obtain ⟨f, hf⟩ := getElem?_earlier (Nat.le_succ k) hg.event
    obtain ⟨m, hf⟩ := makes_of_event hf
    by_cases hputs : Puts key f
    · exact ⟨m, k, f, Nat.lt_succ_self k, hf, hputs, fun j o f hkj hjk ↦ by omega⟩
    · have hbefore : f.before.records key ≠ none := by
        rw [h.chained.next hf.event hg.event] at hrecord
        rcases slot_at h hf key with hsame | hputs' | ⟨_, _, _, _, hnone⟩
        · rwa [← hsame]
        · exact absurd hputs' hputs
        · exact absurd hnone hrecord
      obtain ⟨n, i, e, hik, he, hputs', hlast⟩ := ih hf hbefore
      refine ⟨n, i, e, by omega, he, hputs', fun j o f' hij hjk hf' ↦ ?_⟩
      rcases Nat.eq_or_lt_of_le (Nat.le_of_lt_succ hjk) with rfl | hlt
      · obtain ⟨-, rfl⟩ := hf'.unique hf
        exact hputs
      · exact hlast j o f' hij hlt hf'

/-- What is found in a slot is what was put there. -/
theorem record_of_put (h : Calls (Intercepts ω τ ε β shaKey shaBody Asks) w cs w' es) (hik : i < k)
    (he : Makes es i n e) (hputs : Puts key e) (hlast : ∀ j o f, i < j → j < k → Makes es j o f → ¬Puts key f)
    (hg : Makes es k o g) (hrecord : g.before.record key = some record) :
    (∃ hash holder, e.label = .setNX key hash holder ∧ record = .inFlight hash holder) ∨
      ∃ hash status body, Stores key hash status body e ∧ record = .completed hash status body := by
  obtain ⟨cs', h'⟩ := h.before hg
  obtain ⟨expiry, hrecords, -⟩ := Interception.records_of_record _ hrecord
  have hkept := (h'.kept_after (I := fun t ↦ t.records key = e.after.records key ∨ t.records key = none) (he.take hik)
    (.inl rfl) fun j m f hij hf hI ↦ ?_).1
  · have hafter : e.after.records key = some (record, expiry) := by
      rcases hkept with hkept | hkept
      · rw [← hkept, hrecords]
      · rw [hrecords] at hkept
        cases hkept
    rcases hputs with ⟨holder, hash, hl, hfree⟩ | ⟨hash, status, body, hstores⟩
    · rw [wins_leaves h he hl hfree] at hafter
      cases hafter
      exact .inl ⟨hash, holder, hl, rfl⟩
    · rw [stores_leaves h he hstores] at hafter
      cases hafter
      exact .inr ⟨hash, status, body, hstores, rfl⟩
  · obtain ⟨hjk, hf⟩ := hf.of_take
    rcases slot_at h hf key with hsame | hputs' | ⟨_, _, _, _, hnone⟩
    · rwa [hsame]
    · exact absurd hputs' (hlast j m f hij hjk hf)
    · exact .inr hnone

end Towing.Common
