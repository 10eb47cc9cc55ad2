import Towing.Auth.OtpLimits

namespace Towing.Otp

open Process

variable {cfg : OtpConfig} {now : ℕ} {s : OtpStore} {cs : List (Call OtpStep OtpStore RateLimited)}
  {es : List (ℕ × OtpEvent)}

section Run

variable (hrun : Calls (Asked cfg) (.blank now) cs s es)
include hrun

theorem run_committed : ∀ e ∈ es.map (·.2), e.after = e.before.run e.label := by
  intro e he
  obtain ⟨x, hx, rfl⟩ := List.mem_map.mp he
  exact hrun.committed x hx

theorem run_timed : ∀ e ∈ es.map (·.2), Timed cfg e.label := by
  have hreq : ∀ p, Asked cfg p → p.Heeds (fun _ l ↦ Timed cfg l) (fun _ _ ↦ True) [] := by
    rintro p (_ | ms)
    · refine (heeds_consume cfg).mono (fun past l h ↦ ?_) fun _ _ _ ↦ trivial
      cases l with
      | setCooldown seconds => exact h
      | expireSends seconds => exact h
      | ttlCooldown | incrSends | tick => exact trivial
    · exact ⟨trivial, fun _ ↦ trivial⟩
  intro e he
  obtain ⟨⟨n, e⟩, hmem, rfl⟩ := List.mem_map.mp he
  obtain ⟨pre, post, rfl⟩ := List.append_of_mem hmem
  obtain ⟨-, -, htimed⟩ := (hrun.heeds (Φ := fun _ _ l ↦ Timed cfg l) hreq).1 pre n e post rfl
  exact htimed

/-- The state that a commit of the run finds, by what was committed before. -/
theorem run_found {pre post : List (ℕ × OtpEvent)} {x : ℕ × OtpEvent} (h : es = pre ++ x :: post) :
    Cooled cfg (pre.map (·.2)) x.2.before ∧ Counted cfg (pre.map (·.2)) x.2.before := by
  have hcommitted := run_committed hrun
  have htimed := run_timed hrun
  rw [h, List.map_append] at hcommitted htimed
  refine (hrun.upto (n := x.1) (e := x.2) h).history (J := fun past w ↦ Cooled cfg past w ∧ Counted cfg past w)
    ⟨⟨by simp, by simp [OtpStore.blank]⟩, ⟨by simp [OtpStore.blank], by simp [OtpStore.blank], by simp [OtpStore.blank]⟩⟩ ?_
  rintro past e he ⟨hcooled, hcounted⟩
  have hcommit := hcommitted e (List.mem_append_left _ he)
  have htime := htimed e (List.mem_append_left _ he)
  exact ⟨hcooled.step hcommit htime, hcounted.step hcommit htime⟩

/-- Nobody has sent anything before the first window opens. -/
theorem run_unopened {pre post : List (ℕ × OtpEvent)} {x : ℕ × OtpEvent} (h : es = pre ++ x :: post)
    (hnone : ∀ y ∈ pre, ¬Opens y.2) : x.2.before.sends = none := by
  have hcommitted := run_committed hrun
  rw [h, List.map_append] at hcommitted
  refine (hrun.upto (n := x.1) (e := x.2) h).history (J := fun _ w ↦ w.sends = none) rfl ?_
  intro past e he hsends
  obtain ⟨y, hy, rfl⟩ := List.mem_map.mp he
  rw [hcommitted y.2 (List.mem_append_left _ he)]
  cases hl : y.2.label with
  | incrSends => exact absurd ⟨hl, sent_of_gone (by rw [hsends]; rfl)⟩ (hnone y hy)
  | expireSends seconds => simp [OtpStore.run, Key.expire, hsends, Key.live_none]
  | setCooldown seconds =>
    rw [OtpStore.run]
    split_ifs <;> exact hsends
  | ttlCooldown | tick => exact hsends

/-- What an open window looks like to the commit after `mid`. -/
theorem run_within {pre mid post : List (ℕ × OtpEvent)} {o x : ℕ × OtpEvent}
    (h : es = pre ++ o :: (mid ++ x :: post)) (ho : Opens o.2) (hmid : ∀ y ∈ mid, ¬Opens y.2) :
    Within cfg o.2.before.now ((o :: mid).countP fun y ↦ Passes cfg y.2) x.2.before ∧
      Counted cfg ((pre ++ o :: mid).map (·.2)) x.2.before := by
  have hcommitted := run_committed hrun
  have htimed := run_timed hrun
  obtain ⟨-, hcounted⟩ := run_found hrun h
  have hmem : o.2 ∈ es.map (·.2) := List.mem_map_of_mem (h ▸ by simp)
  have hpass : Passes cfg o.2 := ⟨ho.1, by rw [ho.2]; exact cfg.max_pos⟩
  have hsplit : es = (pre ++ o :: mid) ++ x :: post := by simp [h]
  have hchain := hrun.upto (n := x.1) (e := x.2) hsplit
  rw [List.map_append, List.map_cons] at hchain
  obtain ⟨u, hpre, hu, hchain⟩ := hchain.of_append
  have hcount : (o :: mid).countP (fun y ↦ Passes cfg y.2) = 1 + (mid.map (·.2)).countP (fun e ↦ Passes cfg e) := by
    rw [List.countP_cons_of_pos (by simpa using hpass), List.countP_map, Nat.add_comm]
    rfl
  rw [hcount, List.map_append, List.map_cons]
  refine hchain.history (J := fun past w ↦
    Within cfg o.2.before.now (1 + past.countP fun e ↦ Passes cfg e) w ∧
      Counted cfg (pre.map (·.2) ++ o.2 :: past) w) ⟨?_, ?_⟩ ?_
  · exact within_opens ho (hcommitted _ hmem) ((hcounted.opens_iff ho.1).mp ho)
  · exact hcounted.step (hcommitted _ hmem) (htimed _ hmem)
  · rintro past e he ⟨hwithin, hcounted⟩
    obtain ⟨y, hy, rfl⟩ := List.mem_map.mp he
    have hmem : y.2 ∈ es.map (·.2) := List.mem_map_of_mem (hsplit ▸ by simp [hy])
    have hstep := hwithin.step (hcommitted _ hmem) (htimed _ hmem) hcounted (hmid y hy)
    have hnext := hcounted.step (hcommitted _ hmem) (htimed _ hmem)
    refine ⟨?_, by simpa using hnext⟩
    rw [List.countP_append, List.countP_singleton, ← Nat.add_assoc]
    simpa using hstep

end Run

/-- The call has come back, and the code may be sent. -/
def LetThrough (cfg : OtpConfig) (cs : List (Call OtpStep OtpStore RateLimited)) (n : ℕ) : Prop :=
  ∃ c, cs[n]? = some c ∧ c.asked = consume cfg ∧ c.rest = .done (.ok ())

/-- What holds of the sends of a run, wherever its callers died. A window is what lies between two
openings. -/
structure OtpBounded (cfg : OtpConfig) (cs : List (Call OtpStep OtpStore RateLimited))
    (es : List (ℕ × OtpEvent)) : Prop where
  bounded : ∀ (pre : List (ℕ × OtpEvent)) (o : ℕ × OtpEvent) (mid post : List (ℕ × OtpEvent)),
    es = pre ++ o :: (mid ++ post) → Opens o.2 → (∀ y ∈ mid, ¬Opens y.2) →
    ((o :: mid).countP fun y ↦ Passes cfg y.2) ≤ cfg.OTP_SEND_MAX_PER_WINDOW
  opened : ∀ pre x post, es = pre ++ x :: post → Passes cfg x.2 → Opens x.2 ∨ ∃ o ∈ pre, Opens o.2
  spaced : ∀ (pre : List (ℕ × OtpEvent)) (o : ℕ × OtpEvent) (mid : List (ℕ × OtpEvent)) (x : ℕ × OtpEvent)
    (post : List (ℕ × OtpEvent)), es = pre ++ o :: (mid ++ x :: post) → Opens o.2 → (∀ y ∈ mid, ¬Opens y.2) →
    Opens x.2 → o.2.before.now + cfg.windowMs ≤ x.2.before.now
  counted : ∀ n, LetThrough cfg cs n → ∃ e ∈ own n es, Passes cfg e
  refused : ∀ n c message, cs[n]? = some c → c.asked = consume cfg → c.rest = .done (.error message) →
    ∀ e ∈ own n es, ¬Passes cfg e
  apart : ∀ m n, m ≠ n → LetThrough cfg cs m → LetThrough cfg cs n →
    ∃ e ∈ own m es, ∃ f ∈ own n es, Fresh e ∧ Fresh f ∧
      (e.before.now + cfg.intervalMs ≤ f.before.now ∨ f.before.now + cfg.intervalMs ≤ e.before.now)

theorem apart_of_split (hrun : Calls (Asked cfg) (.blank now) cs s es) {pre post : List (ℕ × OtpEvent)}
    {x y : ℕ × OtpEvent} (h : es = pre ++ y :: post) (hx : x ∈ pre) (hfx : Fresh x.2) (hfy : Fresh y.2) :
    x.2.before.now + cfg.intervalMs ≤ y.2.before.now :=
  (run_found hrun h).1.past hfy.2 _ (List.mem_map_of_mem hx) hfx

theorem mem_of_own {n : ℕ} {e : OtpEvent} (h : e ∈ own n es) : (n, e) ∈ es := by
  obtain ⟨pre, post, rfl⟩ := of_mem_own h
  simp

theorem run_answers (hrun : Calls (Asked cfg) (.blank now) cs s es) {n : ℕ}
    {c : Call OtpStep OtpStore RateLimited} (hc : cs[n]? = some c) (hasked : c.asked = consume cfg)
    {r : Except RateLimited Unit} (hr : c.rest = .done r) : Answers cfg r (own n es) := by
  have hreq : ∀ p, Asked cfg p → p.Heeds (fun _ _ ↦ True)
      (fun r past ↦ p = consume cfg → Answers cfg r past) [] := by
    rintro p (_ | ms)
    · exact (heeds_consume cfg).mono (fun _ _ _ ↦ trivial) fun r past h _ ↦ h
    · refine ⟨trivial, fun _ heq ↦ ?_⟩
      exact absurd heq (by simp [consume, Proc.query, Proc.write, Proc.attempt, Proc.bind])
  have hrest := hrun.rest_heeds hreq n c hc
  rw [hr] at hrest
  exact hrest hasked

theorem otp_bounded (hrun : Calls (Asked cfg) (.blank now) cs s es) : OtpBounded cfg cs es := by
  refine ⟨fun pre o mid post h ho hmid ↦ ?_, fun pre x post h hpass ↦ ?_, fun pre o mid x post h ho hmid hx ↦ ?_,
    ?_, ?_, ?_⟩
  · -- The bound is read off at the last commit of the stretch.
    rcases List.eq_nil_or_concat mid with rfl | ⟨mid, x, rfl⟩
    · have := cfg.max_pos
      have hle := List.countP_le_length (p := fun y : ℕ × OtpEvent ↦ decide (Passes cfg y.2)) (l := [o])
      exact hle.trans this
    · rw [List.concat_eq_append] at h hmid ⊢
      have hsplit : es = pre ++ o :: (mid ++ x :: post) := by simp [h]
      obtain ⟨hwithin, hcounted⟩ := run_within hrun hsplit ho fun y hy ↦ hmid y (List.mem_append_left _ hy)
      have hmem : x.2 ∈ es.map (·.2) := List.mem_map_of_mem (h ▸ by simp)
      have hstep := hwithin.step (run_committed hrun _ hmem) (run_timed hrun _ hmem) hcounted
        (hmid x (List.mem_append_right _ (List.mem_singleton_self x)))
      have hbound := hstep.bounded
      rw [← List.cons_append, List.countP_append, List.countP_singleton]
      simpa using hbound
  · by_cases hnone : ∃ o ∈ pre, Opens o.2
    · exact Or.inr hnone
    · left
      have hsends := run_unopened hrun h fun y hy hopens ↦ hnone ⟨y, hy, hopens⟩
      exact ⟨hpass.1, sent_of_gone (by rw [hsends]; rfl)⟩
  · obtain ⟨hwithin, hcounted⟩ := run_within hrun h ho hmid
    have hgone := (hcounted.opens_iff hx.1).mp hx
    cases hsends : x.2.before.sends with
    | none => exact hwithin.gone hsends
    | some key =>
      obtain ⟨value, expireAt⟩ := key
      cases expireAt with
      | none =>
        rw [hsends, Key.live_immortal] at hgone
        exact absurd hgone (by simp)
      | some until_ =>
        refine (hwithin.lasts _ (by rw [hsends]; rfl) until_ rfl).trans ?_
        by_contra hlt
        rw [hsends, Key.live_of_lt (Nat.lt_of_not_le hlt)] at hgone
        exact absurd hgone (by simp)
  · rintro n ⟨c, hc, hasked, hrest⟩
    exact (run_answers hrun hc hasked hrest).2
  · intro n c message hc hasked hrest
    exact run_answers hrun hc hasked hrest
  · rintro m n hmn ⟨c, hc, hcasked, hcrest⟩ ⟨d, hd, hdasked, hdrest⟩
    obtain ⟨e, he, hefresh⟩ := (run_answers hrun hc hcasked hcrest).1
    obtain ⟨f, hf, hffresh⟩ := (run_answers hrun hd hdasked hdrest).1
    refine ⟨e, he, f, hf, hefresh, hffresh, ?_⟩
    obtain ⟨pre, post, hsplit⟩ := List.append_of_mem (mem_of_own he)
    have hmem := mem_of_own hf
    rw [hsplit] at hmem
    rcases List.mem_append.mp hmem with hmem | hmem
    · exact Or.inr (apart_of_split hrun hsplit hmem hffresh hefresh)
    · rcases List.mem_cons.mp hmem with heq | hmem
      · exact absurd (congrArg Prod.fst heq).symm hmn
      · left
        obtain ⟨mid, rest, rfl⟩ := List.append_of_mem hmem
        have hlater : es = (pre ++ (m, e) :: mid) ++ (n, f) :: rest := by simp [hsplit]
        exact apart_of_split hrun hlater (x := (m, e)) (by simp) hefresh hffresh

/-! ### Recovery -/

def OtpStep.isTick : OtpStep → Bool
  | .tick _ => true
  | _ => false

/-- A command of some call. -/
def Requests (e : OtpEvent) : Prop := e.label.isTick = false

instance : DecidablePred Requests := fun e ↦ inferInstanceAs (Decidable (e.label.isTick = false))

/-- Nothing has been requested for a full window: the commands of all earlier calls are that old, and
none of these calls is still at it. -/
def Quiet (cfg : OtpConfig) (pre : List (ℕ × OtpEvent)) (x : ℕ × OtpEvent) (post : List (ℕ × OtpEvent)) : Prop :=
  ∀ y ∈ pre, Requests y.2 → y.2.before.now + cfg.windowMs ≤ x.2.before.now ∧
    ∀ z ∈ x :: post, Requests z.2 → z.1 ≠ y.1

/-- After a quiet window the cooldown is free, and the first caller to count its send is let through. -/
def Recovers (cfg : OtpConfig) (es : List (ℕ × OtpEvent)) : Prop :=
  ∀ pre x post, es = pre ++ x :: post → (∃ seconds, x.2.label = .setCooldown seconds) → Quiet cfg pre x post →
    Fresh x.2 ∧ ∀ mid y rest, post = mid ++ y :: rest → (∀ z ∈ mid, z.2.label ≠ .incrSends) →
      y.2.label = .incrSends → Passes cfg y.2

/-- No caller dies between an `INCR` that opens a window and its `EXPIRE`. -/
def Armed (es : List (ℕ × OtpEvent)) : Prop :=
  ∀ pre x post, es = pre ++ x :: post → Opens x.2 →
    ∃ y ∈ post, y.1 = x.1 ∧ ∃ seconds, y.2.label = .expireSends seconds

theorem requests_of_label {e : OtpEvent} (h : ∀ ms, e.label ≠ .tick ms) : Requests e := by
  cases hl : e.label with
  | tick ms => exact absurd hl (h ms)
  | setCooldown | ttlCooldown | incrSends | expireSends => simp [Requests, hl, OtpStep.isTick]

/-- A counter that has gone stays gone until it is counted again. -/
theorem gone_step {e : OtpEvent} (h : Key.live e.before.now e.before.sends = none)
    (hcommit : e.after = e.before.run e.label) (hl : e.label ≠ .incrSends) :
    Key.live e.after.now e.after.sends = none := by
  rw [hcommit]
  cases hlabel : e.label with
  | incrSends => exact absurd hlabel hl
  | expireSends seconds => simp [OtpStore.run, Key.expire, h, Key.live_none]
  | setCooldown seconds =>
    rw [OtpStore.run]
    split_ifs <;> exact h
  | ttlCooldown => exact h
  | tick ms => exact Key.gone_mono h (Nat.le_add_right _ _)

theorem live_of_expired {k : Option Key} {now : ℕ}
    (h : ∀ key ∈ k, ∃ until_, key.expireAt = some until_ ∧ until_ ≤ now) : Key.live now k = none := by
  cases k with
  | none => rfl
  | some key =>
    obtain ⟨value, expireAt⟩ := key
    obtain ⟨until_, rfl, hle⟩ := h _ rfl
    exact Key.live_of_le hle

theorem quiet_sends (hrun : Calls (Asked cfg) (.blank now) cs s es) (harmed : Armed es)
    {pre post : List (ℕ × OtpEvent)} {x : ℕ × OtpEvent} (h : es = pre ++ x :: post)
    (hquiet : Quiet cfg pre x post) : Key.live x.2.before.now x.2.before.sends = none := by
  obtain ⟨-, hcounted⟩ := run_found hrun h
  apply live_of_expired
  intro key hkey
  cases hexpire : key.expireAt with
  | some until_ =>
    obtain ⟨e, he, ⟨seconds, hl⟩, rfl⟩ := hcounted.armed_by key hkey until_ hexpire
    obtain ⟨y, hy, rfl⟩ := List.mem_map.mp he
    exact ⟨_, rfl, (hquiet y hy (requests_of_label (by simp [hl]))).1⟩
  | none =>
    -- Its opener has not come to the `EXPIRE` before `x`, and cannot after it.
    exfalso
    obtain ⟨past, o, mid, hsplit, ho, hmid⟩ := hcounted.unarmed key hkey hexpire
    obtain ⟨pre', rest, rfl, rfl, hrest⟩ := List.map_eq_append_iff.mp hsplit
    obtain ⟨y, mid', rfl, rfl, rfl⟩ := List.map_eq_cons_iff.mp hrest
    obtain ⟨z, hz, hsame, seconds, hl⟩ := harmed pre' y (mid' ++ x :: post) (by simp [h]) ho
    rcases List.mem_append.mp hz with hz | hz
    · exact hmid z.2 (List.mem_map_of_mem hz) seconds hl
    · have hy := (hquiet y (by simp) (requests_of_label (by simp [ho.1]))).2
      exact hy z hz (requests_of_label (by simp [hl])) hsame

theorem otp_recovers (hinterval : cfg.OTP_SEND_MIN_INTERVAL_SECONDS ≤ cfg.OTP_SEND_WINDOW_SECONDS)
    (hrun : Calls (Asked cfg) (.blank now) cs s es) (harmed : Armed es) : Recovers cfg es := by
  intro pre x post h hset hquiet
  have hgone := quiet_sends hrun harmed h hquiet
  obtain ⟨hcooled, -⟩ := run_found hrun h
  refine ⟨⟨hset, ?_⟩, fun mid y rest hpost hmid hy ↦ ?_⟩
  · rw [cooling_eq_false_iff]
    apply live_of_expired
    intro key hkey
    obtain ⟨e, he, ⟨seconds, hl⟩, hexpire⟩ := hcooled.set_by key hkey
    obtain ⟨z, hz, rfl⟩ := List.mem_map.mp he
    refine ⟨_, hexpire, le_trans ?_ (hquiet z hz (requests_of_label (by simp [hl]))).1⟩
    exact Nat.add_le_add_left (Nat.mul_le_mul_right 1000 hinterval) _
  · have hsplit : es = (pre ++ x :: mid) ++ y :: rest := by simp [h, hpost]
    have hchain := hrun.upto (n := y.1) (e := y.2) hsplit
    have hcommitted := run_committed hrun
    rw [List.map_append, List.map_cons] at hchain
    obtain ⟨u, -, rfl, hchain⟩ := hchain.of_append
    have hlive : Key.live y.2.before.now y.2.before.sends = none := by
      refine hchain.history (J := fun _ w ↦ Key.live w.now w.sends = none) ?_ ?_
      · obtain ⟨seconds, hset⟩ := hset
        exact gone_step hgone (hcommitted _ (List.mem_map_of_mem (h ▸ by simp))) (by simp [hset])
      · intro past e he hpast
        obtain ⟨z, hz, rfl⟩ := List.mem_map.mp he
        exact gone_step hpast (hcommitted _ (List.mem_map_of_mem (hsplit ▸ by simp [hz]))) (hmid z hz)
    exact ⟨hy, by rw [sent_of_gone hlive]; exact cfg.max_pos⟩

/-- Sends are bounded in every run, and a number recovers in every run whose callers arm the window
that they open. -/
theorem otp_limits (cfg : OtpConfig) {now : ℕ} {cs : List (Call OtpStep OtpStore RateLimited)} {s : OtpStore}
    {es : List (ℕ × OtpEvent)} (hrun : Calls (Asked cfg) (.blank now) cs s es) :
    OtpBounded cfg cs es ∧
      (cfg.OTP_SEND_MIN_INTERVAL_SECONDS ≤ cfg.OTP_SEND_WINDOW_SECONDS → Armed es → Recovers cfg es) :=
  ⟨otp_bounded hrun, fun hinterval harmed ↦ otp_recovers hinterval hrun harmed⟩

/-! ### Two runs -/

/-- The configuration as it ships, but for a cap of two. -/
def sampleOtp : OtpConfig := ⟨86400, 2, 30, by decide, Nat.two_pos, by decide⟩

def otpRun (asked : List OtpRequest) (turns : List ℕ) :
    List (Call OtpStep OtpStore RateLimited) × OtpStore × List (ℕ × OtpEvent) :=
  takeTurns turns (asked.map fun p ↦ ⟨p, p⟩) (.blank 0)

theorem otpRun_calls {asked : List OtpRequest} (h : ∀ p ∈ asked, Asked sampleOtp p) (turns : List ℕ) :
    Calls (Asked sampleOtp) (.blank 0) (otpRun asked turns).1 (otpRun asked turns).2.1
      (otpRun asked turns).2.2 := by
  simpa [otpRun] using (Calls.start.askAll h).takeTurns turns

/-- A call that comes back, and a call a day later. -/
def goodDay : List OtpRequest :=
  [consume sampleOtp, Proc.write (.tick 86400000), consume sampleOtp]

theorem goodDay_asked : ∀ p ∈ goodDay, Asked sampleOtp p := by
  simp only [goodDay, List.forall_mem_cons, List.not_mem_nil, false_imp_iff, implies_true, and_true]
  exact ⟨.consume, .tick _, .consume⟩

theorem otp_limits_good_day :
    OtpBounded sampleOtp (otpRun goodDay [0, 0, 0, 1, 2, 2, 2]).1 (otpRun goodDay [0, 0, 0, 1, 2, 2, 2]).2.2 ∧
      (sampleOtp.OTP_SEND_MIN_INTERVAL_SECONDS ≤ sampleOtp.OTP_SEND_WINDOW_SECONDS →
        Armed (otpRun goodDay [0, 0, 0, 1, 2, 2, 2]).2.2 →
        Recovers sampleOtp (otpRun goodDay [0, 0, 0, 1, 2, 2, 2]).2.2) :=
  otp_limits sampleOtp (otpRun_calls goodDay_asked _)

/-- The first caller dies right after its `INCR`; another is let through half a minute later, and the
next comes when a whole day has passed. -/
def lockedOut : List OtpRequest :=
  [consume sampleOtp, Proc.write (.tick 30000), consume sampleOtp, Proc.write (.tick 86400000),
    consume sampleOtp]

theorem lockedOut_asked : ∀ p ∈ lockedOut, Asked sampleOtp p := by
  simp only [lockedOut, List.forall_mem_cons, List.not_mem_nil, false_imp_iff, implies_true, and_true]
  exact ⟨.consume, .tick _, .consume, .tick _, .consume⟩

def lockedOutEvents : List (ℕ × OtpEvent) := (otpRun lockedOut [0, 0, 1, 2, 2, 3, 4, 4]).2.2

theorem number_locked_out : ∃ cs s, Calls (Asked sampleOtp) (.blank 0) cs s lockedOutEvents ∧
    ¬Recovers sampleOtp lockedOutEvents := by
  refine ⟨_, _, otpRun_calls lockedOut_asked _, fun h ↦ ?_⟩
  have hsplit : lockedOutEvents = lockedOutEvents.take 6 ++
      lockedOutEvents.get ⟨6, by decide +kernel⟩ :: lockedOutEvents.drop 7 := by
    rw [List.get_eq_getElem, ← List.drop_eq_getElem_cons, List.take_append_drop]
  have hlast : lockedOutEvents.drop 7 = [] ++ lockedOutEvents.get ⟨7, by decide +kernel⟩ :: [] := by
    rw [List.drop_eq_getElem_cons (by decide +kernel), List.nil_append]
    rfl
  obtain ⟨-, hpass⟩ := h _ _ _ hsplit ⟨30, by decide +kernel⟩ (by unfold Quiet; decide +kernel)
  have hsent := (hpass _ _ _ hlast (by simp) (by decide +kernel)).2
  revert hsent
  decide +kernel

end Towing.Otp
