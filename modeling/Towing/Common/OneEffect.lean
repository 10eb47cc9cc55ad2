import Towing.Common.Slots

namespace Towing.Common

open Towing.Process

variable {ω τ ε η β : Type} {shaKey : String → String} {shaBody : Json × Json → η} {Asks : HttpRequest → Prop}

/-- No handler outlives the marker that it runs under. -/
def InTime (es : List (ℕ × Event (InterceptStep ω ε η β) (Interception η β τ))) : Prop :=
  ∀ i k n key holder e f, Makes es i n e → Wins key holder e → Makes es k n f → f.label.handles = true →
    f.before.now < e.before.now + inFlightTtlSeconds * 1000

/-- One effect for each key. -/
structure OneEffect [DecidableEq η] (shaKey : String → String)
    (es : List (ℕ × Event (InterceptStep ω ε η β) (Interception η β τ))) : Prop where
  /-- Who wins the marker finds the handler of who had won it before over. -/
  oneAtATime : InTime es → ∀ i j k n m key holder holder' e f g, Makes es i n e → Wins key holder e →
    Makes es j m f → Wins key holder' f → i < j → Makes es k n g → g.label.handles = true → k < j
  /-- While the response is retained, nobody wins the marker again. -/
  runsNothing : ∀ i j n m key hash status body holder e f, Makes es i n e → Stores key hash status body e →
    i < j → Makes es j m f → Wins key holder f → e.before.now + completedTtlSeconds * 1000 ≤ f.before.now
  /-- And every later request of the same content is answered with it. -/
  replays : ∀ i j k n m key hash status body e d f req req' holder holder' reply,
    Makes es i n e → Stores key hash status body e → Drawn shaKey es n req' key holder' →
    i < j → Makes es j m d → Draws shaKey req key holder d → req.Same req' →
    Makes es k m f → f.label = .respond req reply → f.before.now < e.before.now + completedTtlSeconds * 1000 →
    reply = .replayed status body
  /-- As is the one that stored it. -/
  answersAlike : ∀ i k n key hash status body e f req reply, Makes es i n e → Stores key hash status body e →
    Makes es k n f → f.label = .respond req reply → reply = .handled (.ok (status, body))
  /-- A request that finds its slot taken by one of another content is refused. -/
  refuses : ∀ k l m n g f req req' key holder holder' record reply, Drawn shaKey es m req key holder →
    Makes es k m g → Finds key record g → OccupiedBy es k key n → Drawn shaKey es n req' key holder' →
    ¬req.Same req' → Makes es l m f → f.label = .respond req reply →
    reply = .replayMismatch ∨ reply = .stillProcessed
  /-- Who is answered without the handler has changed nothing. -/
  idles : ∀ i k n e f req reply key, Makes es k n f → f.label = .respond req reply →
    req.slot shaKey = some key → (∀ result, reply ≠ .handled result) → Makes es i n e → Idle e
  /-- Whose handler threw has stored nothing, and has left the slot free or to another. -/
  reusable : ∀ k n f req error key, Makes es k n f → f.label = .respond req (.handled (.error error)) →
    req.slot shaKey = some key →
    (∃ i e hash holder, i < k ∧ Makes es i n e ∧ e.label = .release key hash holder ∧
      (e.after.record key = none ∨ ∃ o, o ≠ n ∧ OccupiedBy es i key o)) ∧
    ∀ j g key' hash status body, Makes es j n g → ¬Stores key' hash status body g
  /-- What is replayed was stored for the same tenant, method, path and key. -/
  ownReplies : ∀ k m f req key status body, Makes es k m f → f.label = .respond req (.replayed status body) →
    req.slot shaKey = some key →
    ∃ i n e req' hash holder, i < k ∧ Makes es i n e ∧ Stores key hash status body e ∧
      Drawn shaKey es n req' key holder ∧ req'.tenant = req.tenant ∧ req'.method = req.method ∧
      req'.path = req.path ∧ req'.clientKey = req.clientKey
  /-- Neither script touches the marker of another request. -/
  ownMarkers : ∀ i j n m e f key hash holder, Makes es j m f → Wins key holder f → m ≠ n →
    Makes es i n e → e.label.ends = true → e.before.record key = some (.inFlight hash holder) →
    e.after.records key = e.before.records key

/-- Requests that find a stored response of one that is written like them have its content. -/
def Separated [DecidableEq η] (shaKey : String → String)
    (es : List (ℕ × Event (InterceptStep ω ε η β) (Interception η β τ))) : Prop :=
  ∀ k l m n g f req req' key hash status body holder holder' reply, Drawn shaKey es m req key holder →
    Makes es k m g → Finds key (.completed hash status body) g → OccupiedBy es k key n →
    Drawn shaKey es n req' key holder' → Makes es l m f → f.label = .respond req reply →
    req.text = req'.text → req.Same req'

variable [Store ω τ] [DecidableEq η] {w w' : Interception η β τ}
  {cs : List (Call (InterceptStep ω ε η β) (Interception η β τ) ε)}
  {es : List (ℕ × Event (InterceptStep ω ε η β) (Interception η β τ))} {i j k l m n o : ℕ}
  {d e f g q : Event (InterceptStep ω ε η β) (Interception η β τ)} {key key' : List Char} {hash hash' : η}
  {holder holder' status : ℕ} {body : β} {req req' : HttpRequest} {record record' : IdempotencyRecord η β}
  {reply : Reply ε β}

theorem replies_of_respond (h : Calls (Intercepts ω τ ε β shaKey shaBody Asks) w cs w' es) (hf : Makes es k n f)
    (hl : f.label = .respond req reply) :
    Replies shaKey shaBody (own n (es.take k)) req reply ∧
      ∀ d ∈ own n (es.take k), ∀ req', d.label = .randomUUID req' → req' = req := by
  have hjustified := justified_of_makes h hf
  rw [hl] at hjustified
  cases hjustified with
  | respond honce hreplies => exact ⟨hreplies, honce⟩
  | handles hhandles _ _ _ => cases hhandles

/-- Who looks up its slot has drawn its holder, and is not answered yet. -/
theorem asking_of_get (h : Calls (Intercepts ω τ ε β shaKey shaBody Asks) w cs w' es) (hg : Makes es k n g)
    (hl : g.label = .get key) :
    Waiting (own n (es.take k)) ∧ ∃ req holder d, d ∈ own n (es.take k) ∧ Draws shaKey req key holder d := by
  have hjustified := justified_of_makes h hg
  rw [hl] at hjustified
  cases hjustified with
  | get hd hdraws hwaiting => exact ⟨hwaiting, _, _, _, hd, hdraws⟩
  | handles hhandles _ _ _ => cases hhandles

theorem get_before_respond (h : Calls (Intercepts ω τ ε β shaKey shaBody Asks) w cs w' es) (hg : Makes es k n g)
    (hl : g.label = .get key) (hf : Makes es l n f) (hl' : f.label = .respond req reply) : k < l := by
  rcases Nat.lt_trichotomy k l with hlt | rfl | hlt
  · exact hlt
  · obtain ⟨-, rfl⟩ := hg.unique hf
    cases hl.symm.trans hl'
  · have := (asking_of_get h hg hl).1.responds f (mem_own_of_makes hlt hf)
    rw [hl'] at this
    cases this

/-- A request is answered as the one that it drew its holder for. -/
theorem responds_drawn (h : Calls (Intercepts ω τ ε β shaKey shaBody Asks) w cs w' es)
    (hn : Drawn shaKey es n req' key holder) (hf : Makes es k n f) (hl : f.label = .respond req reply) :
    req' = req := by
  obtain ⟨i, d, hd, hdlabel, -⟩ := hn
  rcases Nat.eq_or_lt_of_le (draw_first h hd hdlabel hf) with rfl | hlt
  · obtain ⟨-, rfl⟩ := hd.unique hf
    cases hdlabel.symm.trans hl
  · exact (replies_of_respond h hf hl).2 d (mem_own_of_makes hlt hd) req' hdlabel

/-- A request finds one record only. -/
theorem finds_once (h : Calls (Intercepts ω τ ε β shaKey shaBody Asks) w cs w' es) (hg : Makes es k n g)
    (hfinds : Finds key record g) (hq : Makes es j n q) (hfinds' : Finds key' record' q) : k = j ∧ g = q := by
  rcases Nat.lt_trichotomy k j with hlt | rfl | hlt
  · exact absurd hfinds ((asking_of_get h hq hfinds'.1).1.finds g (mem_own_of_makes hlt hg) key record)
  · exact ⟨rfl, (hg.unique hq).2⟩
  · exact absurd hfinds' ((asking_of_get h hg hfinds.1).1.finds q (mem_own_of_makes hlt hq) key' record')

theorem won_of_complete (h : Calls (Intercepts ω τ ε β shaKey shaBody Asks) w cs w' es) (he : Makes es i n e)
    (hl : e.label = .complete key hash holder status body) :
    ∃ j r, j < i ∧ Makes es j n r ∧ Wins key holder r := by
  have hjustified := justified_of_makes h he
  rw [hl] at hjustified
  cases hjustified with
  | complete _ _ hr hwins _ =>
    obtain ⟨j, hji, hr⟩ := makes_of_own hr
    exact ⟨j, _, hji, hr, hwins⟩
  | handles hhandles _ _ _ => cases hhandles

theorem won_of_release (h : Calls (Intercepts ω τ ε β shaKey shaBody Asks) w cs w' es) (he : Makes es i n e)
    (hl : e.label = .release key hash holder) : ∃ j r, j < i ∧ Makes es j n r ∧ Wins key holder r := by
  have hjustified := justified_of_makes h he
  rw [hl] at hjustified
  cases hjustified with
  | release _ _ hr hwins _ =>
    obtain ⟨j, hji, hr⟩ := makes_of_own hr
    exact ⟨j, _, hji, hr, hwins⟩
  | handles hhandles _ _ _ => cases hhandles

/-- The response that is found is that of the request that put it there. -/
theorem found_fingerprint (h : Calls (Intercepts ω τ ε β shaKey shaBody Asks) w cs w' es) (hg : Makes es k m g)
    (hfinds : Finds key (.completed hash status body) g) (hoccupied : OccupiedBy es k key n)
    (hn : Drawn shaKey es n req' key holder') : hash = fingerprint shaBody req' := by
  obtain ⟨i, e, hik, he, hputs, hlast⟩ := hoccupied
  rcases record_of_put h hik he hputs hlast hg hfinds.2 with ⟨_, _, _, heq⟩ | ⟨_, _, _, hstores, heq⟩
  · cases heq
  · cases heq
    obtain ⟨holder, hl, -⟩ := hstores
    obtain ⟨req, hn', rfl⟩ := drawn_of_complete h he hl
    rw [(hn.unique h hn').1]

theorem separated_of_refuses (h : Calls (Intercepts ω τ ε β shaKey shaBody Asks) w cs w' es)
    (hone : OneEffect shaKey es) : Separated shaKey es := by
  intro k l m n g f req req' key hash status body holder holder' reply hm hg hfinds hoccupied hn hf hl htext
  by_contra hsame
  have hhash : hash = fingerprint shaBody req := by
    rw [found_fingerprint h hg hfinds hoccupied hn]
    exact congrArg shaBody htext.symm
  have hreplies := (replies_of_respond h hf hl).1
  rcases hone.refuses k l m n g f req req' key holder holder' _ reply hm hg hfinds hoccupied hn hsame hf hl with rfl | rfl
  · cases hreplies with
    | mismatch hslot hq hfinds' hne =>
      obtain ⟨j, -, hq⟩ := makes_of_own hq
      obtain ⟨-, rfl⟩ := finds_once h hg hfinds hq hfinds'
      cases hfinds'.1.symm.trans hfinds.1
      cases hfinds'.2.symm.trans hfinds.2
      exact hne hhash
  · cases hreplies with
    | contested hslot _ _ hnone _ =>
      obtain rfl := Option.some.inj ((hm.asked h).2.2.symm.trans hslot)
      exact hnone g (mem_own_of_makes (get_before_respond h hg hfinds.1 hf hl) hg) hash status body hfinds

theorem refuses_of_separated (h : Calls (Intercepts ω τ ε β shaKey shaBody Asks) w cs w' es)
    (hdigests : Digests shaKey shaBody Asks) (hseparated : Separated shaKey es)
    (hm : Drawn shaKey es m req key holder) (hg : Makes es k m g) (hfinds : Finds key record g)
    (hoccupied : OccupiedBy es k key n) (hn : Drawn shaKey es n req' key holder') (hdiffers : ¬req.Same req')
    (hf : Makes es l m f) (hl : f.label = .respond req reply) : reply = .replayMismatch ∨ reply = .stillProcessed := by
  have hunwon {j : ℕ} {q r : Event (InterceptStep ω ε η β) (Interception η β τ)} {key' : List Char} {holder' : ℕ}
      (hr : Makes es j m r) (hwins : Wins key' holder' r) : False := unwon_of_finds h hg hfinds hr hwins
  have hreplies := (replies_of_respond h hf hl).1
  cases hreplies with
  | passed hslot => exact absurd hslot (by rw [(hm.asked h).2.2]; simp)
  | stored _ hq hlabel =>
    obtain ⟨_, -, hq⟩ := makes_of_own hq
    obtain ⟨_, r, -, hr, hwins⟩ := won_of_complete h hq hlabel
    exact (unwon_of_finds h hg hfinds hr hwins).elim
  | released _ hq hlabel =>
    obtain ⟨_, -, hq⟩ := makes_of_own hq
    obtain ⟨_, r, -, hr, hwins⟩ := won_of_release h hq hlabel
    exact (unwon_of_finds h hg hfinds hr hwins).elim
  | replayed hslot hq hfinds' =>
    obtain rfl := Option.some.inj ((hm.asked h).2.2.symm.trans hslot)
    obtain ⟨_, -, hq⟩ := makes_of_own hq
    obtain ⟨-, rfl⟩ := finds_once h hg hfinds hq hfinds'
    have hhash := found_fingerprint h hg hfinds' hoccupied hn
    have htext := hdigests.body req req' (hm.asked h).1 (hn.asked h).1 hhash
    exact absurd (hseparated k l m n g f req req' key _ _ _ holder holder' _ hm hg hfinds' hoccupied hn hf hl htext) hdiffers
  | mismatch _ _ _ _ => exact .inl rfl
  | contested _ _ _ _ _ => exact .inr rfl

theorem one_at_a_time (h : Calls (Intercepts ω τ ε β shaKey shaBody Asks) w cs w' es) (hintime : InTime es)
    (he : Makes es i n e) (hwins : Wins key holder e) (hf : Makes es j m f) (hwins' : Wins key holder' f)
    (hij : i < j) (hg : Makes es k n g) (hhandles : g.label.handles = true) : k < j := by
  obtain ⟨hash, hl, hfree⟩ := hwins'
  by_contra hle
  have hjk : j < k := by
    rcases Nat.eq_or_lt_of_le (Nat.le_of_not_lt hle) with rfl | hlt
    · obtain ⟨-, rfl⟩ := hf.unique hg
      rw [hl] at hhandles
      cases hhandles
    · exact hlt
  have hends : ∀ q ∈ own n (es.take k), q.label.ends = false := by
    have hjustified := justified_of_makes h hg
    generalize g.label = label at hjustified hhandles
    cases hjustified with
    | handles _ _ _ hends => exact hends
    | passed hall => exact fun q hq ↦ InterceptStep.ends_of_isWork (hall q hq)
    | _ => cases hhandles
  have hnow := hintime i k n key holder e g he hwins hg hhandles
  have hle := now_le h (Nat.le_of_lt hjk) hf hg
  exact marker_stays h he hwins hg hends hij hjk hf (by omega) hfree

theorem runs_nothing (h : Calls (Intercepts ω τ ε β shaKey shaBody Asks) w cs w' es) (he : Makes es i n e)
    (hstores : Stores key hash status body e) (hij : i < j) (hf : Makes es j m f) (hwins : Wins key holder f) :
    e.before.now + completedTtlSeconds * 1000 ≤ f.before.now := by
  obtain ⟨hash', hl, hfree⟩ := hwins
  by_contra hlt
  rw [completed_stays h he hstores hij hf (by omega)] at hfree
  cases hfree

theorem replays_stored (h : Calls (Intercepts ω τ ε β shaKey shaBody Asks) w cs w' es) (he : Makes es i n e)
    (hstores : Stores key hash status body e) (hn : Drawn shaKey es n req' key holder') (hij : i < j)
    (hd : Makes es j m d) (hdraws : Draws shaKey req key holder d) (hsame : req.Same req') (hf : Makes es k m f)
    (hl : f.label = .respond req reply) (hnow : f.before.now < e.before.now + completedTtlSeconds * 1000) :
    reply = .replayed status body := by
  have hslot := hdraws.2.1
  obtain ⟨holder'', hlabel, hmay⟩ := hstores
  have hstores : Stores key hash status body e := ⟨holder'', hlabel, hmay⟩
  have hhash : hash = fingerprint shaBody req := by
    obtain ⟨req'', hn', rfl⟩ := drawn_of_complete h he hlabel
    rw [(hn'.unique h hn).1]
    exact congrArg shaBody (text_of_same hsame).symm
  -- What the request does before its answer, it does after the draw and in time.
  have hwithin {l : ℕ} {q : Event (InterceptStep ω ε η β) (Interception η β τ)} (hq : Makes es l m q) (hlk : l ≤ k) :
      i < l ∧ q.before.now < e.before.now + completedTtlSeconds * 1000 := by
    have hfirst := draw_first h hd hdraws.1 hq
    have hle := now_le h hlk hq hf
    omega
  have hunwon {l : ℕ} {r : Event (InterceptStep ω ε η β) (Interception η β τ)} {key' : List Char} {holder' : ℕ}
      (hr : Makes es l m r) (hlk : l ≤ k) (hkey : key' = key) (hwins : Wins key' holder' r) : False := by
    subst hkey
    obtain ⟨hil, hlate⟩ := hwithin hr hlk
    have := runs_nothing h he hstores hil hr hwins
    omega
  have hreplies := (replies_of_respond h hf hl).1
  cases hreplies with
  | passed hnone => exact absurd hnone (by rw [hslot]; simp)
  | stored hslot' hq hq' =>
    obtain ⟨l, hlk, hq⟩ := makes_of_own hq
    obtain ⟨l', r, hl', hr, hwins⟩ := won_of_complete h hq hq'
    exact (hunwon hr (by omega) (Option.some.inj (hslot'.symm.trans hslot)) hwins).elim
  | released hslot' hq hq' =>
    obtain ⟨l, hlk, hq⟩ := makes_of_own hq
    obtain ⟨l', r, hl', hr, hwins⟩ := won_of_release h hq hq'
    exact (hunwon hr (by omega) (Option.some.inj (hslot'.symm.trans hslot)) hwins).elim
  | replayed hslot' hq hfinds =>
    obtain rfl := Option.some.inj (hslot'.symm.trans hslot)
    obtain ⟨l, hlk, hq⟩ := makes_of_own hq
    obtain ⟨hil, hlate⟩ := hwithin hq (by omega)
    cases (completed_stays h he hstores hil hq hlate).symm.trans hfinds.2
    rfl
  | mismatch hslot' hq hfinds hne =>
    obtain rfl := Option.some.inj (hslot'.symm.trans hslot)
    obtain ⟨l, hlk, hq⟩ := makes_of_own hq
    obtain ⟨hil, hlate⟩ := hwithin hq (by omega)
    cases (completed_stays h he hstores hil hq hlate).symm.trans hfinds.2
    exact absurd hhash hne
  | contested hslot' hq hget hnone _ =>
    obtain rfl := Option.some.inj (hslot'.symm.trans hslot)
    obtain ⟨l, hlk, hq'⟩ := makes_of_own hq
    obtain ⟨hil, hlate⟩ := hwithin hq' (by omega)
    exact absurd ⟨hget, completed_stays h he hstores hil hq' hlate⟩ (hnone _ hq hash status body)

theorem answers_alike (h : Calls (Intercepts ω τ ε β shaKey shaBody Asks) w cs w' es) (he : Makes es i n e)
    (hstores : Stores key hash status body e) (hf : Makes es k n f) (hl : f.label = .respond req reply) :
    reply = .handled (.ok (status, body)) := by
  obtain ⟨holder, hlabel, -⟩ := hstores
  obtain ⟨j, r, -, hr, hwins⟩ := won_of_complete h he hlabel
  have hends : e.label.ends = true := by
    rw [hlabel]
    rfl
  have hlast {l : ℕ} {q : Event (InterceptStep ω ε η β) (Interception η β τ)} (hq : Makes es l n q)
      (hq' : q.label.ends = true) : e = q := by
    have hli := ends_last h he hends hq (.inl hq')
    have hil := ends_last h hq hq' he (.inl hends)
    obtain rfl : i = l := by omega
    exact (he.unique hq).2
  have hreplies := (replies_of_respond h hf hl).1
  cases hreplies with
  | passed hnone =>
    obtain ⟨req', hn, -⟩ := drawn_of_complete h he hlabel
    obtain rfl := responds_drawn h hn hf hl
    rw [(hn.asked h).2.2] at hnone
    cases hnone
  | stored _ hq hq' =>
    obtain ⟨l, -, hq⟩ := makes_of_own hq
    obtain rfl := hlast hq (by rw [hq']; rfl)
    cases hlabel.symm.trans hq'
    rfl
  | released _ hq hq' =>
    obtain ⟨l, -, hq⟩ := makes_of_own hq
    obtain rfl := hlast hq (by rw [hq']; rfl)
    cases hlabel.symm.trans hq'
  | replayed _ hq hfinds =>
    obtain ⟨l, -, hq⟩ := makes_of_own hq
    exact (unwon_of_finds h hq hfinds hr hwins).elim
  | mismatch _ hq hfinds _ =>
    obtain ⟨l, -, hq⟩ := makes_of_own hq
    exact (unwon_of_finds h hq hfinds hr hwins).elim
  | contested _ _ _ _ _ => exact (unwon_of_contested h hf hl hr hwins).elim

theorem idle_of_unhandled (h : Calls (Intercepts ω τ ε β shaKey shaBody Asks) w cs w' es) (hf : Makes es k n f)
    (hl : f.label = .respond req reply) (hunhandled : ∀ result, reply ≠ .handled result) (he : Makes es i n e) :
    Idle e := by
  have hget {l : ℕ} {q : Event (InterceptStep ω ε η β) (Interception η β τ)} {key : List Char} (hq : Makes es l n q)
      (hq' : q.label = .get key) (hunwon : ∀ i e, Makes es i n e → ∀ key holder, ¬Wins key holder e) : Idle e := by
    obtain ⟨req, holder, d, hd, hdraws⟩ := (asking_of_get h hq hq').2
    exact idle_of_unwon h (drawn_of_mem rfl hd hdraws) hunwon he
  have hreplies := (replies_of_respond h hf hl).1
  cases hreplies with
  | passed _ => exact absurd rfl (hunhandled _)
  | stored _ _ _ => exact absurd rfl (hunhandled _)
  | released _ _ _ => exact absurd rfl (hunhandled _)
  | replayed _ hq hfinds =>
    obtain ⟨l, -, hq⟩ := makes_of_own hq
    exact hget hq hfinds.1 fun i e he key holder ↦ unwon_of_finds h hq hfinds he
  | mismatch _ hq hfinds _ =>
    obtain ⟨l, -, hq⟩ := makes_of_own hq
    exact hget hq hfinds.1 fun i e he key holder ↦ unwon_of_finds h hq hfinds he
  | contested _ hq hlabel _ _ =>
    obtain ⟨l, -, hq⟩ := makes_of_own hq
    exact hget hq hlabel fun i e he key holder ↦ unwon_of_contested h hf hl he

/-- A marker that is released is gone, or was lost to another before. -/
theorem release_frees (h : Calls (Intercepts ω τ ε β shaKey shaBody Asks) w cs w' es) (hempty : w.records key = none)
    (he : Makes es i n e) (hl : e.label = .release key hash holder) :
    e.after.record key = none ∨ ∃ o, o ≠ n ∧ OccupiedBy es i key o := by
  have hends : e.label.ends = true := by
    rw [hl]
    rfl
  have hafter := run_at h he
  rw [hl] at hafter
  by_cases hmay : e.before.mayRelease key hash holder = true
  · refine .inl ?_
    rw [hafter]
    simp [Interception.run, hmay, Interception.record]
  · cases hrecord : e.before.record key with
    | none =>
      refine .inl ?_
      rw [hafter, Interception.run, if_neg hmay]
      exact hrecord
    | some record =>
      obtain ⟨expiry, hrecords, -⟩ := Interception.records_of_record _ hrecord
      obtain ⟨o, i', e', hi', he', hputs, hlast⟩ := exists_occupier h hempty he (by rw [hrecords]; simp)
      refine .inr ⟨o, fun ho ↦ hmay ?_, i', e', hi', he', hputs, hlast⟩
      subst ho
      rcases record_of_put h hi' he' hputs hlast he hrecord with ⟨hash', holder', hl', rfl⟩ |
        ⟨hash', status, body, ⟨holder', hl', -⟩, -⟩
      · obtain ⟨req, hn, rfl⟩ := drawn_of_release h he hl
        obtain ⟨req', hn', rfl⟩ := drawn_of_setNX h he' hl'
        obtain ⟨rfl, -, rfl⟩ := hn.unique h hn'
        simp [Interception.mayRelease, hrecord, IdempotencyRecord.isMarker]
      · have := ends_last h he' (by rw [hl']; rfl) he (.inl hends)
        omega

theorem reusable_after (h : Calls (Intercepts ω τ ε β shaKey shaBody Asks) w cs w' es) {error : ε}
    (hempty : w.records key = none) (hf : Makes es k n f) (hl : f.label = .respond req (.handled (.error error)))
    (hslot : req.slot shaKey = some key) :
    (∃ i e hash holder, i < k ∧ Makes es i n e ∧ e.label = .release key hash holder ∧
      (e.after.record key = none ∨ ∃ o, o ≠ n ∧ OccupiedBy es i key o)) ∧
    ∀ j g key' hash status body, Makes es j n g → ¬Stores key' hash status body g := by
  have hreplies := (replies_of_respond h hf hl).1
  cases hreplies with
  | passed hnone =>
    rw [hslot] at hnone
    cases hnone
  | released hslot' hq hq' =>
    obtain rfl := Option.some.inj (hslot'.symm.trans hslot)
    obtain ⟨i, hik, hq⟩ := makes_of_own hq
    refine ⟨⟨i, _, _, _, hik, hq, hq', release_frees h hempty hq hq'⟩, fun j g key' hash status body hg hstores ↦ ?_⟩
    obtain ⟨holder, hlabel, -⟩ := hstores
    have hji := ends_last h hq (by rw [hq']; rfl) hg (.inl (by rw [hlabel]; rfl))
    have hij := ends_last h hg (by rw [hlabel]; rfl) hq (.inl (by rw [hq']; rfl))
    obtain rfl : i = j := by omega
    obtain ⟨-, rfl⟩ := hq.unique hg
    cases hq'.symm.trans hlabel

theorem own_replies (h : Calls (Intercepts ω τ ε β shaKey shaBody Asks) w cs w' es)
    (hdigests : Digests shaKey shaBody Asks) (hempty : w.records key = none) (hf : Makes es k m f)
    (hl : f.label = .respond req (.replayed status body)) (hslot : req.slot shaKey = some key) :
    ∃ i n e req' hash holder, i < k ∧ Makes es i n e ∧ Stores key hash status body e ∧
      Drawn shaKey es n req' key holder ∧ req'.tenant = req.tenant ∧ req'.method = req.method ∧
      req'.path = req.path ∧ req'.clientKey = req.clientKey := by
  have hreplies := (replies_of_respond h hf hl).1
  cases hreplies with
  | replayed hslot' hq hfinds =>
    obtain rfl := Option.some.inj (hslot'.symm.trans hslot)
    obtain ⟨j, hjk, hq⟩ := makes_of_own hq
    obtain ⟨expiry, hrecords, -⟩ := Interception.records_of_record _ hfinds.2
    obtain ⟨n, i, e, hij, he, hputs, hlast⟩ := exists_occupier h hempty hq (by rw [hrecords]; simp)
    rcases record_of_put h hij he hputs hlast hq hfinds.2 with ⟨_, _, _, heq⟩ | ⟨_, _, _, hstores, heq⟩
    · cases heq
    · cases heq
      obtain ⟨holder, hlabel, hmay⟩ := hstores
      obtain ⟨req', hn, hhash⟩ := drawn_of_complete h he hlabel
      obtain ⟨req'', holder'', d, hd, hdraws⟩ := (asking_of_get h hq hfinds.1).2
      have hm : Drawn shaKey es m req'' _ holder'' := drawn_of_mem rfl hd hdraws
      obtain rfl := responds_drawn h hm hf hl
      have hn' := hn.asked h
      have hm' := hm.asked h
      exact ⟨i, n, e, req', _, holder, by omega, he, ⟨holder, hlabel, hmay⟩, hn,
        slot_inj hdigests hn'.1 hm'.1 hn'.2.1 hm'.2.1 hn'.2.2 hm'.2.2⟩

theorem own_markers (h : Calls (Intercepts ω τ ε β shaKey shaBody Asks) w cs w' es) (hf : Makes es j m f)
    (hwins : Wins key holder f) (hmn : m ≠ n) (he : Makes es i n e) (hends : e.label.ends = true)
    (hrecord : e.before.record key = some (.inFlight hash holder)) : e.after.records key = e.before.records key := by
  obtain ⟨hash', hl, -⟩ := hwins
  obtain ⟨req, hm, -⟩ := drawn_of_setNX h hf hl
  rcases slot_at h he key with hsame | (⟨holder', hash'', hl', -⟩ | ⟨hash'', status, body, holder', hl', hmay⟩) |
    ⟨hash'', holder', hl', hmay, -⟩
  · exact hsame
  · rw [hl'] at hends
    cases hends
  · obtain ⟨-, rfl⟩ : hash = hash'' ∧ holder = holder' := by
      simpa [Interception.mayComplete, hrecord, IdempotencyRecord.isMarker] using hmay
    obtain ⟨req', hn, -⟩ := drawn_of_complete h he hl'
    exact absurd (hm.same h hn) hmn
  · obtain ⟨-, rfl⟩ : hash = hash'' ∧ holder = holder' := by
      simpa [Interception.mayRelease, hrecord, IdempotencyRecord.isMarker] using hmay
    obtain ⟨req', hn, -⟩ := drawn_of_release h he hl'
    exact absurd (hm.same h hn) hmn

/-- There is one effect for each key exactly where no request finds the stored response
of another content that is written alike. -/
theorem one_effect_iff (h : Calls (Intercepts ω τ ε β shaKey shaBody Asks) w cs w' es)
    (hdigests : Digests shaKey shaBody Asks) (hempty : ∀ key, w.records key = none) :
    OneEffect shaKey es ↔ Separated shaKey es := by
  refine ⟨separated_of_refuses h, fun hseparated ↦ ?_⟩
  exact {
    oneAtATime := fun hintime i j k n m key holder holder' e f g he hwins hf hwins' hij hg hhandles ↦
      one_at_a_time h hintime he hwins hf hwins' hij hg hhandles
    runsNothing := fun i j n m key hash status body holder e f he hstores hij hf hwins ↦
      runs_nothing h he hstores hij hf hwins
    replays := fun i j k n m key hash status body e d f req req' holder holder' reply he hstores hn hij hd hdraws
      hsame hf hl hnow ↦ replays_stored h he hstores hn hij hd hdraws hsame hf hl hnow
    answersAlike := fun i k n key hash status body e f req reply he hstores hf hl ↦ answers_alike h he hstores hf hl
    refuses := fun k l m n g f req req' key holder holder' record reply hm hg hfinds hoccupied hn hdiffers hf hl ↦
      refuses_of_separated h hdigests hseparated hm hg hfinds hoccupied hn hdiffers hf hl
    idles := fun i k n e f req reply key hf hl _ hunhandled he ↦ idle_of_unhandled h hf hl hunhandled he
    reusable := fun k n f req error key hf hl hslot ↦ reusable_after h (hempty key) hf hl hslot
    ownReplies := fun k m f req key status body hf hl hslot ↦ own_replies h hdigests (hempty key) hf hl hslot
    ownMarkers := fun i j n m e f key hash holder hf hwins hmn he hends hrecord ↦
      own_markers h hf hwins hmn he hends hrecord }

/-- Where requests that are written alike have the same content, none finds another's. -/
theorem separated_of_alike (h : Calls (Intercepts ω τ ε β shaKey shaBody Asks) w cs w' es)
    (halike : ∀ req req', Asks req → Asks req' → req.text = req'.text → req.Same req') : Separated shaKey es := by
  intro k l m n g f req req' key hash status body holder holder' reply hm _ _ _ hn _ _ htext
  exact halike req req' (hm.asked h).1 (hn.asked h).1 htext

/-! Two uploads under one key, and a payment with its retry. -/

inductive ImportStep
  | insertTruck

instance : Store ImportStep ℕ where
  commit _ trucks := trucks + 1

def sampleRequest (body : Body) : HttpRequest :=
  ⟨some ⟨some "fleet", "admin"⟩, .POST, "/admin/trucks/import?dry=0", .object [], body, some "1"⟩

def sampleHandler : Proc ImportStep ℕ Unit (ℕ × ℕ) := do
  let trucks ← Proc.query .insertTruck fun trucks ↦ trucks
  pure (201, trucks)

def sampleShaKey (_ : String) : String := "6b86"

def sampleShaBody : Json × Json → Bool
  | (_, .object (_ :: _)) => true
  | _ => false

abbrev SampleIntercepted (bodies : List Body) : InterceptRequest ImportStep ℕ Unit Bool ℕ Unit → Prop :=
  Intercepts ImportStep ℕ Unit ℕ sampleShaKey sampleShaBody fun req ↦ req ∈ bodies.map sampleRequest

def sampleInterception : Interception Bool ℕ ℕ := ⟨0, 0, fun _ ↦ none, 0⟩

def interceptRun (bodies : List Body) (turns : List ℕ) :
    List (Call (InterceptStep ImportStep Unit Bool ℕ) (Interception Bool ℕ ℕ) Unit) × Interception Bool ℕ ℕ ×
      List (ℕ × Event (InterceptStep ImportStep Unit Bool ℕ) (Interception Bool ℕ ℕ)) :=
  let ps := bodies.map fun body ↦
    IdempotencyInterceptor.intercept sampleShaKey sampleShaBody (sampleRequest body) sampleHandler
  takeTurns turns (ps.map fun p ↦ ⟨p, p⟩) sampleInterception

theorem interceptRun_calls (bodies : List Body) (turns : List ℕ) :
    Calls (SampleIntercepted bodies) sampleInterception (interceptRun bodies turns).1 (interceptRun bodies turns).2.1
      (interceptRun bodies turns).2.2 := by
  have hps : ∀ p ∈ bodies.map fun body ↦ IdempotencyInterceptor.intercept sampleShaKey sampleShaBody
      (sampleRequest body) sampleHandler, SampleIntercepted bodies p := by
    intro p hp
    obtain ⟨body, hbody, rfl⟩ := List.mem_map.mp hp
    refine .intercept (sampleRequest body) sampleHandler (List.mem_map_of_mem hbody) ?_
    change ':' ∉ "fleet".toList
    decide +kernel
  simpa [interceptRun] using (Calls.start.askAll hps).takeTurns turns

/-- Whether the step puts a record anywhere. -/
def putsAny (e : Event (InterceptStep ImportStep Unit Bool ℕ) (Interception Bool ℕ ℕ)) : Bool :=
  match e.label with
  | .setNX key _ _ => (e.before.record key).isNone
  | .complete key hash holder _ _ => e.before.mayComplete key hash holder
  | _ => false

theorem putsAny_of_puts {e : Event (InterceptStep ImportStep Unit Bool ℕ) (Interception Bool ℕ ℕ)}
    (h : Puts key e) : putsAny e = true := by
  rcases h with ⟨holder, hash, hl, hfree⟩ | ⟨hash, status, body, holder, hl, hmay⟩
  · simp [putsAny, hl, hfree]
  · simp [putsAny, hl, hmay]

def sampleUploads : List Body := [.unparsed "one truck", .unparsed "two trucks"]

def sampleUploadTurns : List ℕ := [0, 0, 0, 0, 0, 0, 1, 1, 1, 1]

theorem sampleUploads_digests :
    Digests sampleShaKey sampleShaBody fun req ↦ req ∈ sampleUploads.map sampleRequest where
  hex _ := by
    change ':' ∉ "6b86".toList
    decide +kernel
  key req req' clientKey clientKey' hreq hreq' hkey hkey' _ := by
    simp only [sampleUploads, List.map_cons, List.map_nil, List.mem_cons, List.not_mem_nil, or_false] at hreq hreq'
    rcases hreq with rfl | rfl <;> rcases hreq' with rfl | rfl <;> exact Option.some.inj (hkey.symm.trans hkey')
  body req req' hreq hreq' _ := by
    simp only [sampleUploads, List.map_cons, List.map_nil, List.mem_cons, List.not_mem_nil, or_false] at hreq hreq'
    rcases hreq with rfl | rfl <;> rcases hreq' with rfl | rfl <;> rfl

/-- The second upload is answered with what the first has come to. -/
theorem upload_replayed : ∃ cs w es, Calls (SampleIntercepted sampleUploads) sampleInterception cs w es ∧
    Digests sampleShaKey sampleShaBody (fun req ↦ req ∈ sampleUploads.map sampleRequest) ∧ InTime es ∧
    ¬OneEffect sampleShaKey es := by
  have hnow : ∀ x ∈ (interceptRun sampleUploads sampleUploadTurns).2.2, x.2.before.now = 0 := by
    have hall : (interceptRun sampleUploads sampleUploadTurns).2.2.map (·.2.before.now) = List.replicate 10 0 := by
      decide +kernel
    intro x hx
    exact List.eq_of_mem_replicate (hall ▸ List.mem_map_of_mem hx)
  have hputs : (interceptRun sampleUploads sampleUploadTurns).2.2.map (fun x ↦ putsAny x.2) =
      [false, true, false, false, true, false, false, false, false, false] := by decide +kernel
  refine ⟨_, _, _, interceptRun_calls sampleUploads sampleUploadTurns, sampleUploads_digests,
    fun i k n key holder e f he _ hf _ ↦ ?_, fun hone ↦ ?_⟩
  · rw [hnow _ (List.mem_of_getElem? he), hnow _ (List.mem_of_getElem? hf)]
    decide
  · have hreply := hone.refuses 8 9 1 0 _ _ (sampleRequest (.unparsed "two trucks")) (sampleRequest (.unparsed "one truck"))
      _ 1 0 _ (.replayed 201 0) ⟨6, _, rfl, rfl, rfl, rfl⟩ rfl ⟨rfl, rfl⟩ ?_ ⟨0, _, rfl, rfl, rfl, rfl⟩ ?_ rfl rfl
    · rcases hreply with hreply | hreply <;> cases hreply
    · refine ⟨4, _, by decide, rfl, .inr ⟨_, _, _, _, rfl, rfl⟩, fun j o f hij hjk hf hf' ↦ ?_⟩
      have hget : ((interceptRun sampleUploads sampleUploadTurns).2.2.map fun x ↦ putsAny x.2)[j]? = some true := by
        rw [List.getElem?_map, hf]
        exact congrArg some (putsAny_of_puts hf')
      rw [hputs] at hget
      obtain rfl | rfl | rfl : j = 5 ∨ j = 6 ∨ j = 7 := by omega
      all_goals cases hget
    · intro hsame
      exact absurd (show "two trucks" = "one truck" from hsame.2) (by decide)

def samplePayments : List Body :=
  [.parsed (.object []), .parsed (.object []), .parsed (.object [⟨"amount", .number 100⟩])]

def samplePaymentTurns : List ℕ := [0, 0, 1, 0, 1, 0, 0, 0, 1, 2, 2, 2, 2]

theorem samplePayments_hash : fingerprint sampleShaBody (sampleRequest (.parsed (.object []))) ≠
    fingerprint sampleShaBody (sampleRequest (.parsed (.object [⟨"amount", .number 100⟩]))) := by decide +kernel

theorem samplePayments_digests :
    Digests sampleShaKey sampleShaBody fun req ↦ req ∈ samplePayments.map sampleRequest where
  hex _ := by
    change ':' ∉ "6b86".toList
    decide +kernel
  key req req' clientKey clientKey' hreq hreq' hkey hkey' _ := by
    obtain ⟨body, -, rfl⟩ := List.mem_map.mp hreq
    obtain ⟨body', -, rfl⟩ := List.mem_map.mp hreq'
    exact Option.some.inj (hkey.symm.trans hkey')
  body req req' hreq hreq' hhash := by
    simp only [samplePayments, List.map_cons, List.map_nil, List.mem_cons, List.not_mem_nil, or_false, or_self_left]
      at hreq hreq'
    rcases hreq with rfl | rfl <;> rcases hreq' with rfl | rfl
    · rfl
    · exact absurd hhash samplePayments_hash
    · exact absurd hhash.symm samplePayments_hash
    · rfl

theorem one_effect_sample :
    OneEffect sampleShaKey (interceptRun samplePayments samplePaymentTurns).2.2 := by
  have h := interceptRun_calls samplePayments samplePaymentTurns
  refine (one_effect_iff h samplePayments_digests fun _ ↦ rfl).mpr (separated_of_alike h fun req req' hreq hreq' htext ↦ ?_)
  have hhash := congrArg sampleShaBody htext
  simp only [samplePayments, List.map_cons, List.map_nil, List.mem_cons, List.not_mem_nil, or_false, or_self_left]
    at hreq hreq'
  rcases hreq with rfl | rfl <;> rcases hreq' with rfl | rfl
  · exact ⟨rfl, rfl⟩
  · exact absurd hhash samplePayments_hash
  · exact absurd hhash.symm samplePayments_hash
  · exact ⟨rfl, rfl⟩

end Towing.Common
