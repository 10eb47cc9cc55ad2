import Towing.Auth.OtpRate
import Towing.Process.Moments
import Mathlib.Data.List.Count
import Mathlib.Algebra.Ring.Nat

namespace Towing.Otp

open Process

variable {cfg : OtpConfig} {w s t : OtpStore} {es pre mid : List OtpEvent} {e f : OtpEvent}

abbrev OtpConfig.windowMs (cfg : OtpConfig) : ℕ := cfg.OTP_SEND_WINDOW_SECONDS * 1000

abbrev OtpConfig.intervalMs (cfg : OtpConfig) : ℕ := cfg.OTP_SEND_MIN_INTERVAL_SECONDS * 1000

/-- The step carries the configured times. -/
def Timed (cfg : OtpConfig) : OtpStep → Prop
  | .setCooldown seconds => seconds = cfg.OTP_SEND_MIN_INTERVAL_SECONDS
  | .expireSends seconds => seconds = cfg.OTP_SEND_WINDOW_SECONDS
  | _ => True

theorem clock_run (l : OtpStep) (w : OtpStore) : w.now ≤ (w.run l).now := by
  cases l with
  | setCooldown seconds =>
    simp only [OtpStore.run]
    split_ifs <;> exact Nat.le_refl _
  | tick ms => exact Nat.le_add_right _ _
  | ttlCooldown | incrSends | expireSends => exact Nat.le_refl _

theorem cooling_eq_false_iff : w.cooling = false ↔ Key.live w.now w.cooldown = none := by
  rw [OtpStore.cooling, Option.isSome_eq_false_iff, Option.isNone_iff_eq_none]

/-! ### The cooldown -/

/-- The cooldown stands for the sends that set it. -/
structure Cooled (cfg : OtpConfig) (es : List OtpEvent) (w : OtpStore) : Prop where
  outlasts : ∀ e ∈ es, Fresh e → ∃ until_, w.cooldown = some ⟨1, some until_⟩ ∧ e.before.now + cfg.intervalMs ≤ until_
  set_by : ∀ key ∈ w.cooldown, ∃ e ∈ es, (∃ seconds, e.label = .setCooldown seconds) ∧
    key.expireAt = some (e.before.now + cfg.intervalMs)

theorem Cooled.past (h : Cooled cfg es w) (hcool : w.cooling = false) :
    ∀ e ∈ es, Fresh e → e.before.now + cfg.intervalMs ≤ w.now := by
  intro e he hfresh
  obtain ⟨until_, hkey, hle⟩ := h.outlasts e he hfresh
  rw [cooling_eq_false_iff, hkey] at hcool
  refine hle.trans ?_
  by_contra hlt
  rw [Key.live_of_lt (by omega)] at hcool
  exact absurd hcool (by simp)

theorem Cooled.keep (h : Cooled cfg es w) (hsame : t.cooldown = w.cooldown) (hnot : ¬Fresh e) :
    Cooled cfg (es ++ [e]) t := by
  constructor
  · intro f hf hfresh
    rw [hsame]
    rcases List.mem_append.mp hf with hf | hf
    · exact h.outlasts f hf hfresh
    · rw [List.mem_singleton.mp hf] at hfresh
      exact absurd hfresh hnot
  · intro key hkey
    rw [hsame] at hkey
    obtain ⟨f, hf, hset⟩ := h.set_by key hkey
    exact ⟨f, List.mem_append_left _ hf, hset⟩

theorem Cooled.step (h : Cooled cfg es e.before) (hcommit : e.after = e.before.run e.label)
    (htimed : Timed cfg e.label) : Cooled cfg (es ++ [e]) e.after := by
  cases hl : e.label with
  | setCooldown seconds =>
    rw [hl] at htimed
    have hseconds : seconds = cfg.OTP_SEND_MIN_INTERVAL_SECONDS := htimed
    rw [hcommit, hl]
    by_cases hcool : e.before.cooling = true
    · apply h.keep
      · rw [OtpStore.run, if_pos hcool]
      · rintro ⟨-, hfresh⟩
        rw [hcool] at hfresh
        exact absurd hfresh (by decide)
    · rw [Bool.not_eq_true] at hcool
      have hpast := h.past hcool
      rw [OtpStore.run, if_neg (by rw [hcool]; decide)]
      constructor
      · intro f hf _
        refine ⟨_, rfl, ?_⟩
        rw [hseconds]
        rcases List.mem_append.mp hf with hf | hf
        · have := hpast f hf ‹_›
          omega
        · rw [List.mem_singleton.mp hf]
      · intro key hkey
        rw [Option.mem_some_iff] at hkey
        refine ⟨e, List.mem_append_right _ (List.mem_singleton_self e), ⟨seconds, hl⟩, ?_⟩
        rw [← hkey, hseconds]
  | ttlCooldown | incrSends | expireSends | tick =>
    apply h.keep
    · rw [hcommit, hl]
      rfl
    · rintro ⟨⟨seconds, hset⟩, -⟩
      rw [hl] at hset
      exact absurd hset (by simp)

/-! ### The counter -/

/-- Where the expiry of the counter comes from: the `EXPIRE` of some call, or it was never set since
the window opened. -/
structure Counted (cfg : OtpConfig) (es : List OtpEvent) (w : OtpStore) : Prop where
  positive : ∀ key ∈ w.sends, 0 < key.value
  armed_by : ∀ key ∈ w.sends, ∀ until_, key.expireAt = some until_ →
    ∃ e ∈ es, (∃ seconds, e.label = .expireSends seconds) ∧ until_ = e.before.now + cfg.windowMs
  unarmed : ∀ key ∈ w.sends, key.expireAt = none →
    ∃ pre o mid, es = pre ++ o :: mid ∧ Opens o ∧ ∀ f ∈ mid, ∀ seconds, f.label ≠ .expireSends seconds

theorem Counted.keep (h : Counted cfg es w) (hsame : t.sends = w.sends)
    (hnot : ∀ seconds, e.label ≠ .expireSends seconds) : Counted cfg (es ++ [e]) t := by
  refine ⟨by rw [hsame]; exact h.positive, fun key hkey until_ huntil ↦ ?_, fun key hkey hnone ↦ ?_⟩
  · rw [hsame] at hkey
    obtain ⟨f, hf, hexpire⟩ := h.armed_by key hkey until_ huntil
    exact ⟨f, List.mem_append_left _ hf, hexpire⟩
  · rw [hsame] at hkey
    obtain ⟨pre, o, mid, rfl, ho, hmid⟩ := h.unarmed key hkey hnone
    refine ⟨pre, o, mid ++ [e], by simp, ho, ?_⟩
    exact forall_mem_concat hmid hnot

theorem sent_of_gone (h : Key.live w.now w.sends = none) : w.sent = 1 := by
  rw [OtpStore.sent, Key.incr_of_gone h]

/-- What `INCR` makes of a counter that is there. -/
theorem incr_of_live {key : Key} (h : Key.live w.now w.sends = some key) :
    Key.incr w.now w.sends = { key with value := key.value + 1 } := by
  rw [Key.incr, h]

theorem Counted.opens_iff (h : Counted cfg es e.before) (hl : e.label = .incrSends) :
    Opens e ↔ Key.live e.before.now e.before.sends = none := by
  constructor
  · rintro ⟨-, hone⟩
    cases hlive : Key.live e.before.now e.before.sends with
    | none => rfl
    | some key =>
      have hpos := h.positive key (Key.live_mem hlive)
      rw [OtpStore.sent, incr_of_live hlive] at hone
      have hone : key.value + 1 = 1 := hone
      omega
  · exact fun hgone ↦ ⟨hl, sent_of_gone hgone⟩

theorem Counted.step (h : Counted cfg es e.before) (hcommit : e.after = e.before.run e.label)
    (htimed : Timed cfg e.label) : Counted cfg (es ++ [e]) e.after := by
  cases hl : e.label with
  | incrSends =>
    have hnot : ∀ seconds, e.label ≠ .expireSends seconds := by
      intro seconds
      rw [hl]
      simp
    have hafter : e.after.sends = some (Key.incr e.before.now e.before.sends) := by
      rw [hcommit, hl]
      rfl
    cases hlive : Key.live e.before.now e.before.sends with
    | none =>
      rw [Key.incr_of_gone hlive] at hafter
      refine ⟨by simp [hafter], by simp [hafter], fun key hkey _ ↦ ?_⟩
      exact ⟨es, e, [], rfl, ⟨hl, sent_of_gone hlive⟩, by simp⟩
    | some key =>
      rw [incr_of_live hlive] at hafter
      have hkey := Key.live_mem hlive
      refine ⟨by simp [hafter], fun key' hkey' until_ huntil ↦ ?_, fun key' hkey' hnone ↦ ?_⟩
      · rw [hafter, Option.mem_some_iff] at hkey'
        rw [← hkey'] at huntil
        obtain ⟨f, hf, hexpire⟩ := h.armed_by key hkey until_ huntil
        exact ⟨f, List.mem_append_left _ hf, hexpire⟩
      · rw [hafter, Option.mem_some_iff] at hkey'
        rw [← hkey'] at hnone
        obtain ⟨pre, o, mid, rfl, ho, hmid⟩ := h.unarmed key hkey hnone
        exact ⟨pre, o, mid ++ [e], by simp, ho, forall_mem_concat hmid hnot⟩
  | expireSends seconds =>
    rw [hl] at htimed
    have hseconds : seconds = cfg.OTP_SEND_WINDOW_SECONDS := htimed
    have hafter : e.after.sends = Key.expire e.before.now e.before.sends (seconds * 1000) := by
      rw [hcommit, hl]
      rfl
    have hkeys : ∀ key ∈ e.after.sends, 0 < key.value ∧ key.expireAt = some (e.before.now + cfg.windowMs) := by
      intro key hkey
      rw [hafter, Key.expire, Option.mem_def, Option.map_eq_some_iff] at hkey
      obtain ⟨old, hlive, rfl⟩ := hkey
      exact ⟨h.positive old (Key.live_mem hlive), by rw [hseconds]⟩
    refine ⟨fun key hkey ↦ (hkeys key hkey).1, fun key hkey until_ huntil ↦ ?_, fun key hkey hnone ↦ ?_⟩
    · rw [(hkeys key hkey).2, Option.some_inj] at huntil
      exact ⟨e, List.mem_append_right _ (List.mem_singleton_self e), ⟨seconds, hl⟩, huntil.symm⟩
    · rw [(hkeys key hkey).2] at hnone
      exact absurd hnone (by simp)
  | setCooldown seconds =>
    apply h.keep
    · rw [hcommit, hl, OtpStore.run]
      split_ifs <;> rfl
    · intro seconds
      rw [hl]
      simp
  | ttlCooldown | tick =>
    apply h.keep
    · rw [hcommit, hl]
      rfl
    · intro seconds
      rw [hl]
      simp

/-! ### An open window -/

/-- After `o` opened a window that no other call has opened since: how many sends passed, and how long
the counter lasts. -/
structure Within (cfg : OtpConfig) (opened passed : ℕ) (w : OtpStore) : Prop where
  bounded : passed ≤ cfg.OTP_SEND_MAX_PER_WINDOW
  counted : ∀ key, Key.live w.now w.sends = some key → passed ≤ key.value
  elapsed : opened ≤ w.now
  gone : w.sends = none → opened + cfg.windowMs ≤ w.now
  lasts : ∀ key ∈ w.sends, ∀ until_, key.expireAt = some until_ → opened + cfg.windowMs ≤ until_

theorem within_opens (h : Opens e) (hcommit : e.after = e.before.run e.label)
    (hgone : Key.live e.before.now e.before.sends = none) : Within cfg e.before.now 1 e.after := by
  have hafter : e.after = { e.before with sends := some ⟨1, none⟩ } := by
    rw [hcommit, h.1, OtpStore.run, Key.incr_of_gone hgone]
  rw [hafter]
  refine ⟨cfg.max_pos, fun key hlive ↦ ?_, Nat.le_refl _, by simp, by simp⟩
  have hkey := Key.live_mem hlive
  rw [Option.some_inj] at hkey
  rw [← hkey]

theorem live_later {key : Key} {k : Option Key} {now later : ℕ} (hle : now ≤ later)
    (h : Key.live later k = some key) : Key.live now k = some key := by
  cases hnow : Key.live now k with
  | none =>
    rw [Key.gone_mono hnow hle] at h
    exact absurd h (by simp)
  | some key' =>
    rw [← Key.live_mem hnow, ← Key.live_mem h]

theorem Within.step {opened passed : ℕ} (h : Within cfg opened passed e.before)
    (hcommit : e.after = e.before.run e.label) (htimed : Timed cfg e.label)
    (hcounted : Counted cfg es e.before) (hnot : ¬Opens e) :
    Within cfg opened (passed + if Passes cfg e then 1 else 0) e.after := by
  have hclock : e.before.now ≤ e.after.now := hcommit ▸ clock_run e.label e.before
  have hother : e.label ≠ .incrSends → ¬Passes cfg e := fun hne hpass ↦ hne hpass.1
  have hkeep : e.after.sends = e.before.sends → e.label ≠ .incrSends →
      Within cfg opened (passed + if Passes cfg e then 1 else 0) e.after := by
    intro hsame hne
    rw [if_neg (hother hne)]
    refine ⟨h.bounded, fun key hlive ↦ ?_, h.elapsed.trans hclock, fun hnone ↦ ?_, ?_⟩
    · rw [hsame] at hlive
      exact h.counted key (live_later hclock hlive)
    · rw [hsame] at hnone
      exact (h.gone hnone).trans hclock
    · rw [hsame]
      exact h.lasts
  cases hl : e.label with
  | incrSends =>
    cases hlive : Key.live e.before.now e.before.sends with
    | none => exact absurd ((hcounted.opens_iff hl).mpr hlive) hnot
    | some key =>
      have hle := h.counted key hlive
      have hafter : e.after = { e.before with sends := some { key with value := key.value + 1 } } := by
        rw [hcommit, hl, OtpStore.run, incr_of_live hlive]
      have hsent : e.before.sent = key.value + 1 := by rw [OtpStore.sent, incr_of_live hlive]
      have hcount : passed + (if Passes cfg e then 1 else 0) ≤ key.value + 1 ∧
          passed + (if Passes cfg e then 1 else 0) ≤ cfg.OTP_SEND_MAX_PER_WINDOW := by
        have hbound := h.bounded
        by_cases hpass : Passes cfg e
        · have hmax := hpass.2
          rw [if_pos hpass]
          omega
        · rw [if_neg hpass]
          omega
      rw [hafter]
      refine ⟨hcount.2, fun key' hlive' ↦ ?_, h.elapsed, by simp, fun key' hkey' until_ huntil ↦ ?_⟩
      · have hkey' := Key.live_mem hlive'
        rw [Option.some_inj] at hkey'
        rw [← hkey']
        exact hcount.1
      · rw [Option.mem_some_iff] at hkey'
        rw [← hkey'] at huntil
        exact h.lasts key (Key.live_mem hlive) until_ huntil
  | expireSends seconds =>
    rw [hl] at htimed
    have hseconds : seconds = cfg.OTP_SEND_WINDOW_SECONDS := htimed
    have hafter : e.after = { e.before with sends := Key.expire e.before.now e.before.sends (seconds * 1000) } := by
      rw [hcommit, hl]
      rfl
    rw [if_neg (hother (by rw [hl]; simp)), hafter]
    refine ⟨h.bounded, fun key hlive ↦ ?_, h.elapsed, fun hnone ↦ ?_, fun key hkey until_ huntil ↦ ?_⟩
    · have hkey := Key.live_mem hlive
      rw [Key.expire, Option.map_eq_some_iff] at hkey
      obtain ⟨old, hold, rfl⟩ := hkey
      exact h.counted old hold
    · have hnone : (Key.live e.before.now e.before.sends).map
          (fun k ↦ { k with expireAt := some (e.before.now + seconds * 1000) }) = none := hnone
      rw [Option.map_eq_none_iff] at hnone
      cases hsends : e.before.sends with
      | none => exact h.gone hsends
      | some key =>
        obtain ⟨value, expireAt⟩ := key
        cases expireAt with
        | none =>
          rw [hsends, Key.live_immortal] at hnone
          exact absurd hnone (by simp)
        | some until_ =>
          refine (h.lasts _ (by rw [hsends]; rfl) until_ rfl).trans ?_
          by_contra hlt
          rw [hsends, Key.live_of_lt (Nat.lt_of_not_le hlt)] at hnone
          exact absurd hnone (by simp)
    · have hkey : Key.expire e.before.now e.before.sends (seconds * 1000) = some key := hkey
      rw [Key.expire, Option.map_eq_some_iff] at hkey
      obtain ⟨old, -, rfl⟩ := hkey
      have huntil : some (e.before.now + seconds * 1000) = some until_ := huntil
      rw [Option.some_inj] at huntil
      rw [← huntil, hseconds]
      exact Nat.add_le_add_right h.elapsed _
  | setCooldown seconds =>
    apply hkeep
    · rw [hcommit, hl, OtpStore.run]
      split_ifs <;> rfl
    · rw [hl]
      simp
  | ttlCooldown | tick =>
    apply hkeep
    · rw [hcommit, hl]
      rfl
    · rw [hl]
      simp

end Towing.Otp
