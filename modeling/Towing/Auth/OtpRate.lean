import Towing.Process.Calls
import Towing.Process.ExpiringKey

namespace Towing.Otp

open Process

structure OtpConfig where
  OTP_SEND_WINDOW_SECONDS : ℕ
  OTP_SEND_MAX_PER_WINDOW : ℕ
  OTP_SEND_MIN_INTERVAL_SECONDS : ℕ
  window_pos : 0 < OTP_SEND_WINDOW_SECONDS
  max_pos : 0 < OTP_SEND_MAX_PER_WINDOW
  interval_pos : 0 < OTP_SEND_MIN_INTERVAL_SECONDS

/-- The two keys of one phone number, by a clock of milliseconds. -/
structure OtpStore where
  now : ℕ
  cooldown : Option Key
  sends : Option Key
  deriving DecidableEq, Repr

inductive OtpStep where
  /-- `SET cooldown 1 EX seconds NX` -/
  | setCooldown (seconds : ℕ)
  | ttlCooldown
  | incrSends
  | expireSends (seconds : ℕ)
  | tick (ms : ℕ)
  deriving DecidableEq, Repr

namespace OtpStore

variable (w : OtpStore)

def cooling : Bool := (Key.live w.now w.cooldown).isSome

/-- What `INCR` answers. -/
def sent : ℕ := (Key.incr w.now w.sends).value

/-- `TTL` answers in seconds, rounded. -/
def cooldownTtl : ℤ :=
  if Key.pttl w.now w.cooldown < 0 then Key.pttl w.now w.cooldown
  else (Key.pttl w.now w.cooldown + 500) / 1000

def run : OtpStep → OtpStore
  | .setCooldown seconds =>
    if w.cooling then w else { w with cooldown := some ⟨1, some (w.now + seconds * 1000)⟩ }
  | .ttlCooldown => w
  | .incrSends => { w with sends := some (Key.incr w.now w.sends) }
  | .expireSends seconds => { w with sends := Key.expire w.now w.sends (seconds * 1000) }
  | .tick ms => { w with now := w.now + ms }

end OtpStore

instance : Store OtpStep OtpStore where
  commit l w := w.run l

structure RateLimited where
  message : String

abbrev OtpRequest := Proc OtpStep OtpStore RateLimited Unit

def consume (cfg : OtpConfig) : OtpRequest := do
  let fresh ← Proc.query (.setCooldown cfg.OTP_SEND_MIN_INTERVAL_SECONDS) fun w ↦ !w.cooling
  if fresh then
    let sends ← Proc.query .incrSends OtpStore.sent
    Proc.when (sends = 1) (Proc.write (.expireSends cfg.OTP_SEND_WINDOW_SECONDS))
    if sends > cfg.OTP_SEND_MAX_PER_WINDOW then
      throw ⟨"Too many codes requested for this number — try later"⟩
  else
    let ttl ← Proc.query .ttlCooldown OtpStore.cooldownTtl
    throw ⟨s!"Wait {max ttl 1} seconds before requesting another code"⟩

/-- The calls for one number, and the clock. A call of which nothing more is heard has died. -/
inductive Asked (cfg : OtpConfig) : OtpRequest → Prop
  | consume : Asked cfg (consume cfg)
  | tick (ms : ℕ) : Asked cfg (Proc.write (.tick ms))

def OtpStore.blank (now : ℕ) : OtpStore := ⟨now, none, none⟩

abbrev OtpEvent := Event OtpStep OtpStore

def Fresh (e : OtpEvent) : Prop := (∃ seconds, e.label = .setCooldown seconds) ∧ e.before.cooling = false

/-- An `INCR` that lets its caller through. -/
def Passes (cfg : OtpConfig) (e : OtpEvent) : Prop :=
  e.label = .incrSends ∧ e.before.sent ≤ cfg.OTP_SEND_MAX_PER_WINDOW

instance (cfg : OtpConfig) : DecidablePred (Passes cfg) := fun e ↦
  inferInstanceAs (Decidable (e.label = .incrSends ∧ e.before.sent ≤ cfg.OTP_SEND_MAX_PER_WINDOW))

/-- The first send of a window. -/
def Opens (e : OtpEvent) : Prop := e.label = .incrSends ∧ e.before.sent = 1

instance : DecidablePred Opens := fun e ↦
  inferInstanceAs (Decidable (e.label = .incrSends ∧ e.before.sent = 1))

/-! ### One call -/

/-- What a call may commit after what it has committed. -/
def Allowed (cfg : OtpConfig) (past : List OtpEvent) : OtpStep → Prop
  | .setCooldown seconds => seconds = cfg.OTP_SEND_MIN_INTERVAL_SECONDS
  | .incrSends => (∃ e ∈ past, Fresh e) ∧ ∀ e ∈ past, e.label ≠ .incrSends
  | .expireSends seconds => seconds = cfg.OTP_SEND_WINDOW_SECONDS
  | .ttlCooldown | .tick _ => True

/-- What a call has committed when it answers. -/
def Answers (cfg : OtpConfig) (r : Except RateLimited Unit) (past : List OtpEvent) : Prop :=
  match r with
  | .ok _ => (∃ e ∈ past, Fresh e) ∧ ∃ e ∈ past, Passes cfg e
  | .error _ => ∀ e ∈ past, ¬Passes cfg e

variable {cfg : OtpConfig}

theorem heeds_sent {past : List OtpEvent} {e : OtpEvent} (he : e.label = .incrSends)
    (hfresh : ∃ f ∈ past, Fresh f) (hnone : ∀ f ∈ past, f.label ≠ .incrSends) :
    (do
      Proc.when (e.before.sent = 1) (Proc.write (.expireSends cfg.OTP_SEND_WINDOW_SECONDS))
      if e.before.sent > cfg.OTP_SEND_MAX_PER_WINDOW then
        throw ⟨"Too many codes requested for this number — try later"⟩ : OtpRequest).Heeds
      (Allowed cfg) (Answers cfg) (past ++ [e]) := by
  -- Whether the expiry was set in between is all the same to the answer.
  have hend : ∀ rest : List OtpEvent, (∀ f ∈ rest, f.label ≠ .incrSends) →
      (if e.before.sent > cfg.OTP_SEND_MAX_PER_WINDOW then
        throw ⟨"Too many codes requested for this number — try later"⟩ else pure () : OtpRequest).Heeds
        (Allowed cfg) (Answers cfg) (past ++ e :: rest) := by
    intro rest hrest
    split_ifs with hmany
    · intro f hf hpass
      rcases List.mem_append.mp hf with hf | hf
      · exact hnone f hf hpass.1
      · rcases List.mem_cons.mp hf with rfl | hf
        · exact absurd hpass.2 (Nat.not_le.mpr hmany)
        · exact hrest f hf hpass.1
    · obtain ⟨f, hf, hfresh⟩ := hfresh
      exact ⟨⟨f, List.mem_append_left _ hf, hfresh⟩, e, by simp, he, Nat.le_of_not_lt hmany⟩
  by_cases hone : e.before.sent = 1
  · rw [Proc.when_pos hone]
    refine ⟨rfl, fun s ↦ ?_⟩
    have := hend [⟨.expireSends cfg.OTP_SEND_WINDOW_SECONDS, s, s.run (.expireSends cfg.OTP_SEND_WINDOW_SECONDS)⟩]
      (by simp)
    rw [List.append_assoc]
    exact this
  · rw [Proc.when_neg hone]
    exact hend [] (by simp)

theorem heeds_consume (cfg : OtpConfig) : (consume cfg).Heeds (Allowed cfg) (Answers cfg) [] := by
  refine ⟨rfl, fun s ↦ ?_⟩
  by_cases hfresh : s.cooling = false
  · change (if (!s.cooling) = true then _ else _ : OtpRequest).Heeds _ _ _
    rw [if_pos (by rw [hfresh]; rfl)]
    refine ⟨⟨⟨_, List.mem_singleton_self _, ⟨_, rfl⟩, hfresh⟩, by simp⟩, fun s' ↦ ?_⟩
    exact heeds_sent rfl ⟨_, List.mem_singleton_self _, ⟨_, rfl⟩, hfresh⟩ (by simp)
  · change (if (!s.cooling) = true then _ else _ : OtpRequest).Heeds _ _ _
    rw [if_neg (by simpa using hfresh)]
    refine ⟨trivial, fun s' e he hpass ↦ ?_⟩
    have hlabel := hpass.1
    simp only [List.nil_append, List.singleton_append, List.mem_cons, List.not_mem_nil, or_false] at he
    rcases he with rfl | rfl <;> exact absurd hlabel (by simp)

end Towing.Otp
