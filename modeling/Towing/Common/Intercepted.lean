import Towing.Common.Idempotency

namespace Towing.Common

open Towing.Process

variable {ω τ ε η β α : Type} [Store ω τ] [DecidableEq η] {shaKey : String → String}
  {shaBody : Json × Json → η} {Asks : HttpRequest → Prop}

namespace InterceptStep

def isWork : InterceptStep ω ε η β → Bool
  | .work _ => true
  | _ => false

/-- A step of a handler that is running. -/
def handles : InterceptStep ω ε η β → Bool
  | .work _ | .finish _ => true
  | _ => false

/-- The end of a run: its response is stored, or its marker released. -/
def ends : InterceptStep ω ε η β → Bool
  | .complete _ _ _ _ _ | .release _ _ _ => true
  | _ => false

omit [Store ω τ] [DecidableEq η] in
theorem ends_of_isWork {l : InterceptStep ω ε η β} (h : l.isWork = true) : l.ends = false := by
  cases l with
  | work l => rfl
  | _ => cases h

def responds : InterceptStep ω ε η β → Bool
  | .respond _ _ => true
  | _ => false

end InterceptStep

/-- A request draws its holder, and has a slot. -/
def Draws (shaKey : String → String) (req : HttpRequest) (key : List Char) (holder : ℕ)
    (e : Event (InterceptStep ω ε η β) (Interception η β τ)) : Prop :=
  e.label = .randomUUID req ∧ req.slot shaKey = some key ∧ e.before.nextHolder = holder

/-- The request wins the marker. -/
def Wins (key : List Char) (holder : ℕ) (e : Event (InterceptStep ω ε η β) (Interception η β τ)) : Prop :=
  ∃ hash, e.label = .setNX key hash holder ∧ e.before.record key = none

/-- The response is stored. -/
def Stores (key : List Char) (hash : η) (status : ℕ) (body : β)
    (e : Event (InterceptStep ω ε η β) (Interception η β τ)) : Prop :=
  ∃ holder, e.label = .complete key hash holder status body ∧ e.before.mayComplete key hash holder = true

/-- The lookup finds the record. -/
def Finds (key : List Char) (record : IdempotencyRecord η β)
    (e : Event (InterceptStep ω ε η β) (Interception η β τ)) : Prop :=
  e.label = .get key ∧ e.before.record key = some record

/-- The step changes nothing of what is stored, nor of what the handlers work on. -/
def Idle (e : Event (InterceptStep ω ε η β) (Interception η β τ)) : Prop :=
  e.after.records = e.before.records ∧ e.after.inner = e.before.inner

/-- The request has neither won a marker nor found a record, and is not answered. -/
structure Waiting (past : List (Event (InterceptStep ω ε η β) (Interception η β τ))) : Prop where
  wins : ∀ q ∈ past, ∀ key holder, ¬Wins key holder q
  finds : ∀ q ∈ past, ∀ key record, ¬Finds key record q
  responds : ∀ q ∈ past, q.label.responds = false

/-- What has been done where a request is answered that has no slot, or drew its holder. -/
inductive Replies (shaKey : String → String) (shaBody : Json × Json → η)
    (past : List (Event (InterceptStep ω ε η β) (Interception η β τ))) (req : HttpRequest) : Reply ε β → Prop
  | passed {result : Except ε (ℕ × β)} : req.slot shaKey = none → Replies shaKey shaBody past req (.handled result)
  | stored {key : List Char} {hash : η} {holder status : ℕ} {body : β}
      {q : Event (InterceptStep ω ε η β) (Interception η β τ)} :
      req.slot shaKey = some key → q ∈ past → q.label = .complete key hash holder status body →
      Replies shaKey shaBody past req (.handled (.ok (status, body)))
  | released {key : List Char} {hash : η} {holder : ℕ} {e : ε}
      {q : Event (InterceptStep ω ε η β) (Interception η β τ)} :
      req.slot shaKey = some key → q ∈ past → q.label = .release key hash holder →
      Replies shaKey shaBody past req (.handled (.error e))
  | replayed {key : List Char} {status : ℕ} {body : β}
      {q : Event (InterceptStep ω ε η β) (Interception η β τ)} :
      req.slot shaKey = some key → q ∈ past → Finds key (.completed (fingerprint shaBody req) status body) q →
      Replies shaKey shaBody past req (.replayed status body)
  | mismatch {key : List Char} {record : IdempotencyRecord η β}
      {q : Event (InterceptStep ω ε η β) (Interception η β τ)} :
      req.slot shaKey = some key → q ∈ past → Finds key record q → record.requestHash ≠ fingerprint shaBody req →
      Replies shaKey shaBody past req .replayMismatch
  | contested {key : List Char} {q : Event (InterceptStep ω ε η β) (Interception η β τ)} :
      req.slot shaKey = some key → q ∈ past → q.label = .get key →
      (∀ r ∈ past, ∀ hash status body, ¬Finds key (.completed hash status body) r) →
      (∀ r ∈ past, ∀ key holder, ¬Wins key holder r) → Replies shaKey shaBody past req .stillProcessed

/-- What a request has done before each of its steps. -/
inductive Justified (shaKey : String → String) (shaBody : Json × Json → η) (Asks : HttpRequest → Prop)
    (past : List (Event (InterceptStep ω ε η β) (Interception η β τ))) : InterceptStep ω ε η β → Prop
  | tick {ms : ℕ} : Justified shaKey shaBody Asks past (.tick ms)
  | draw {req : HttpRequest} : past = [] → Asks req → ':' ∉ req.tenant.toList →
      Justified shaKey shaBody Asks past (.randomUUID req)
  | setNX {req : HttpRequest} {key : List Char} {holder : ℕ} {d : Event (InterceptStep ω ε η β) (Interception η β τ)} :
      d ∈ past → Draws shaKey req key holder d → Waiting past →
      Justified shaKey shaBody Asks past (.setNX key (fingerprint shaBody req) holder)
  | get {req : HttpRequest} {key : List Char} {holder : ℕ} {d : Event (InterceptStep ω ε η β) (Interception η β τ)} :
      d ∈ past → Draws shaKey req key holder d → Waiting past → Justified shaKey shaBody Asks past (.get key)
  | passed {l : ω} : (∀ q ∈ past, q.label.isWork = true) → Justified shaKey shaBody Asks past (.work l)
  | handles {key : List Char} {holder : ℕ} {l : InterceptStep ω ε η β}
      {r : Event (InterceptStep ω ε η β) (Interception η β τ)} :
      l.handles = true → r ∈ past → Wins key holder r → (∀ q ∈ past, q.label.ends = false) →
      Justified shaKey shaBody Asks past l
  | complete {req : HttpRequest} {key : List Char} {holder status : ℕ} {body : β}
      {d r : Event (InterceptStep ω ε η β) (Interception η β τ)} :
      d ∈ past → Draws shaKey req key holder d → r ∈ past → Wins key holder r →
      (∀ q ∈ past, q.label.ends = false) →
      Justified shaKey shaBody Asks past (.complete key (fingerprint shaBody req) holder status body)
  | release {req : HttpRequest} {key : List Char} {holder : ℕ}
      {d r : Event (InterceptStep ω ε η β) (Interception η β τ)} :
      d ∈ past → Draws shaKey req key holder d → r ∈ past → Wins key holder r →
      (∀ q ∈ past, q.label.ends = false) →
      Justified shaKey shaBody Asks past (.release key (fingerprint shaBody req) holder)
  | respond {req : HttpRequest} {reply : Reply ε β} :
      (∀ d ∈ past, ∀ req', d.label = .randomUUID req' → req' = req) →
      Replies shaKey shaBody past req reply → Justified shaKey shaBody Asks past (.respond req reply)

variable {past : List (Event (InterceptStep ω ε η β) (Interception η β τ))} {key : List Char} {hash : η} {holder : ℕ}
  {req : HttpRequest} {next : Proc ω τ ε (ℕ × β)} {d : Event (InterceptStep ω ε η β) (Interception η β τ)}

/-- The step as it is committed. -/
def intercepted (l : InterceptStep ω ε η β) (w : Interception η β τ) :
    Event (InterceptStep ω ε η β) (Interception η β τ) := ⟨l, w, w.run l⟩

omit [Store ω τ] [DecidableEq η] in
theorem Waiting.concat {e : Event (InterceptStep ω ε η β) (Interception η β τ)} (h : Waiting past)
    (hwins : ∀ key holder, ¬Wins key holder e) (hfinds : ∀ key record, ¬Finds key record e)
    (hresponds : e.label.responds = false) : Waiting (past ++ [e]) :=
  ⟨forall_mem_concat h.wins hwins, forall_mem_concat h.finds hfinds, forall_mem_concat h.responds hresponds⟩

/-- A handler adds its own steps to what has been done. -/
theorem justified_handler (p : Proc ω τ ε α)
    (hwork : ∀ works l, (∀ r ∈ works, r.label.isWork = true) →
      Justified shaKey shaBody Asks (past ++ works) (.work l)) :
    (IdempotencyInterceptor.handler p : InterceptRequest ω τ ε η β α).Heeds (Justified shaKey shaBody Asks)
      (fun _ past' ↦ ∃ works, past' = past ++ works ∧ ∀ r ∈ works, r.label.isWork = true) past := by
  induction p generalizing past with
  | done r => exact ⟨[], by simp, by simp⟩
  | step l next ih =>
    refine ⟨by simpa using hwork [] l (by simp), fun s ↦ ?_⟩
    refine (ih s.inner fun works l' hworks ↦ ?_).mono (fun _ _ h ↦ h) fun _ past' hworks ↦ ?_
    · have := hwork (intercepted (.work l) s :: works) l' (List.forall_mem_cons.mpr ⟨rfl, hworks⟩)
      rwa [List.append_cons] at this
    · obtain ⟨works, rfl, hall⟩ := hworks
      exact ⟨intercepted (.work l) s :: works, by simp [intercepted]; rfl, List.forall_mem_cons.mpr ⟨rfl, hall⟩⟩

/-- What the acquisition comes to: a marker that is won, a record that is found, or
neither, for lack of one to read. -/
inductive Acquired (key : List Char) (hash : η) (holder : ℕ)
    (past : List (Event (InterceptStep ω ε η β) (Interception η β τ))) :
    Except ε (Option (IdempotencyRecord η β)) → Prop
  | won {r : Event (InterceptStep ω ε η β) (Interception η β τ)} :
      r ∈ past → Wins key holder r → Acquired key hash holder past (.ok none)
  | found {record : IdempotencyRecord η β} {q : Event (InterceptStep ω ε η β) (Interception η β τ)} :
      q ∈ past → Finds key record q → (∀ r ∈ past, ∀ key record', Finds key record' r → record' = record) →
      (∀ r ∈ past, ∀ key holder, ¬Wins key holder r) → Acquired key hash holder past (.ok (some record))
  | neither {q : Event (InterceptStep ω ε η β) (Interception η β τ)} :
      q ∈ past → q.label = .get key → Waiting past →
      Acquired key hash holder past (.ok (some (.inFlight hash holder)))

/-- What stays of the request while it asks for the marker. -/
structure Asking (d : Event (InterceptStep ω ε η β) (Interception η β τ))
    (past : List (Event (InterceptStep ω ε η β) (Interception η β τ))) : Prop where
  drawn : d ∈ past
  once : ∀ r ∈ past, ∀ req, r.label = .randomUUID req → r = d
  ends : ∀ r ∈ past, r.label.ends = false

omit [Store ω τ] [DecidableEq η] in
theorem Asking.concat {e : Event (InterceptStep ω ε η β) (Interception η β τ)} (h : Asking d past)
    (honce : ∀ req, e.label ≠ .randomUUID req) (hends : e.label.ends = false) : Asking d (past ++ [e]) :=
  ⟨List.mem_append_left _ h.drawn, forall_mem_concat h.once fun req heq ↦ absurd heq (honce req),
    forall_mem_concat h.ends hends⟩

omit [Store ω τ] [DecidableEq η] in
theorem Asking.append {works : List (Event (InterceptStep ω ε η β) (Interception η β τ))} (h : Asking d past)
    (hworks : ∀ r ∈ works, r.label.isWork = true) : Asking d (past ++ works) := by
  refine ⟨List.mem_append_left _ h.drawn, List.forall_mem_append.mpr ⟨h.once, fun r hr req heq ↦ ?_⟩,
    List.forall_mem_append.mpr ⟨h.ends, fun r hr ↦ InterceptStep.ends_of_isWork (hworks r hr)⟩⟩
  have hwork := hworks r hr
  rw [heq] at hwork
  cases hwork

theorem justified_acquire (attempts : ℕ) (hd : Draws shaKey req key holder d) (hpast : Waiting past)
    (hasking : Asking d past) (hget : attempts = 0 → ∃ q ∈ past, q.label = .get key) :
    (IdempotencyInterceptor.acquire key (fingerprint shaBody req) holder attempts :
      InterceptRequest ω τ ε η β _).Heeds (Justified shaKey shaBody Asks)
      (fun answer past' ↦ Asking d past' ∧ Acquired key (fingerprint shaBody req) holder past' answer) past := by
  induction attempts generalizing past with
  | zero =>
    obtain ⟨q, hq, hlabel⟩ := hget rfl
    exact ⟨hasking, .neither hq hlabel hpast⟩
  | succ attempts ih =>
    refine ⟨.setNX hasking.drawn hd hpast, fun s ↦ ?_⟩
    have hasking' := hasking.concat (e := intercepted (.setNX key (fingerprint shaBody req) holder) s) (by simp [intercepted]) rfl
    cases hrecord : s.record key with
    | none =>
      simp only [Proc.bind_ok, hrecord, Option.isNone_none, if_true]
      exact ⟨hasking', .won List.mem_concat_self ⟨_, rfl, hrecord⟩⟩
    | some record =>
      simp only [Proc.bind_ok, hrecord, Option.isNone_some, Bool.false_eq_true, if_false]
      have hpast' := hpast.concat (e := intercepted (.setNX key (fingerprint shaBody req) holder) s)
        (fun key' holder' ⟨hash, hlabel, hfree⟩ ↦ by
          cases hlabel
          simp [intercepted, hrecord] at hfree)
        (fun key' record' h ↦ by cases h.1) rfl
      refine ⟨.get hasking'.drawn hd hpast', fun s' ↦ ?_⟩
      have hasking'' := hasking'.concat (e := intercepted (.get key) s') (by simp [intercepted]) rfl
      cases hrecord' : s'.record key with
      | none =>
        simp only [Proc.bind_ok, hrecord']
        refine ih (hpast'.concat (fun key' holder' ⟨hash, hlabel, _⟩ ↦ by cases hlabel) (fun key' record' h ↦ ?_) rfl)
          hasking'' fun _ ↦ ⟨_, List.mem_concat_self, rfl⟩
        obtain ⟨hlabel, hfound⟩ := h
        cases hlabel
        simp [hrecord'] at hfound
      | some record' =>
        simp only [Proc.bind_ok, hrecord']
        refine ⟨hasking'', .found List.mem_concat_self ⟨rfl, hrecord'⟩ (forall_mem_concat ?_ ?_)
          (forall_mem_concat hpast'.wins fun key' holder' ⟨hash, hlabel, _⟩ ↦ by cases hlabel)⟩
        · intro r hr key' record'' hfinds
          exact absurd hfinds (hpast'.finds r hr key' record'')
        · intro key' record'' hfinds
          obtain ⟨hlabel, hfound⟩ := hfinds
          cases hlabel
          exact Option.some.inj (hfound.symm.trans hrecord')

/-- The handler runs under the marker, and ends with its response stored or its marker
released. -/
theorem justified_handle {r : Event (InterceptStep ω ε η β) (Interception η β τ)} (hslot : req.slot shaKey = some key)
    (hd : Draws shaKey req key holder d) (hasking : Asking d past) (hr : r ∈ past) (hwins : Wins key holder r) :
    (IdempotencyInterceptor.handle key (fingerprint shaBody req) holder next :
      InterceptRequest ω τ ε η β (Reply ε β)).Heeds (Justified shaKey shaBody Asks)
      (fun answer past' ↦ (∀ q ∈ past', ∀ req, q.label = .randomUUID req → q = d) ∧
        ∃ reply, answer = .ok reply ∧ Replies shaKey shaBody past' req reply) past := by
  refine (justified_handler next fun works l hworks ↦ ?_).follow fun result past' hpast' ↦ ?_
  · exact .handles rfl (List.mem_append_left _ hr) hwins (hasking.append hworks).ends
  obtain ⟨works, rfl, hworks⟩ := hpast'
  have hr' := List.mem_append_left works hr
  refine ⟨.handles rfl hr' hwins (hasking.append hworks).ends, fun s ↦ ?_⟩
  have hasking' := (hasking.append hworks).concat (e := intercepted (.finish key) s) (by simp [intercepted]) rfl
  have hr'' := List.mem_append_left [intercepted (.finish key) s] hr'
  cases result with
  | ok response =>
    refine ⟨.complete hasking'.drawn hd hr'' hwins hasking'.ends, fun s' ↦ ?_⟩
    refine ⟨forall_mem_concat hasking'.once (by simp), _, rfl, ?_⟩
    exact .stored hslot List.mem_concat_self rfl
  | error e =>
    refine ⟨.release hasking'.drawn hd hr'' hwins hasking'.ends, fun s' ↦ ?_⟩
    refine ⟨forall_mem_concat hasking'.once (by simp), _, rfl, ?_⟩
    exact .released hslot List.mem_concat_self rfl

omit [Store ω τ] in
/-- Who has not won the marker is answered from what was found. -/
theorem replies_judge {record : IdempotencyRecord η β} (hslot : req.slot shaKey = some key)
    (h : Acquired (ε := ε) key (fingerprint shaBody req) holder past (.ok (some record))) :
    Replies (ε := ε) shaKey shaBody past req
      (IdempotencyInterceptor.judge (fingerprint shaBody req) record) := by
  unfold IdempotencyInterceptor.judge
  cases h with
  | found hq hfinds honly hwins =>
    split_ifs with hhash
    · exact .mismatch hslot hq hfinds hhash
    · cases record with
      | inFlight hash holder' =>
        refine .contested hslot hq hfinds.1 (fun r hr hash' status body hfound ↦ ?_) hwins
        cases honly r hr key _ hfound
      | completed hash status body =>
        obtain rfl : hash = fingerprint shaBody req := Classical.not_not.mp hhash
        exact .replayed hslot hq hfinds
  | neither hq hlabel hwaiting =>
    rw [if_neg (by simp [IdempotencyRecord.requestHash])]
    exact .contested hslot hq hlabel (fun r hr hash status body ↦ hwaiting.finds r hr key _) hwaiting.wins

theorem justified_intercept (hasks : Asks req) (htenant : ':' ∉ req.tenant.toList) :
    (IdempotencyInterceptor.intercept shaKey shaBody req next : InterceptRequest ω τ ε η β Unit).Heeds
      (Justified shaKey shaBody Asks) (fun _ _ ↦ True) [] := by
  refine Proc.Heeds.bind (Q := fun answer past ↦ (∀ q ∈ past, ∀ req', q.label = .randomUUID req' → req' = req) ∧
    ∃ reply, answer = .ok reply ∧ Replies shaKey shaBody past req reply) ?_ (fun reply past h ↦ ?_) fun _ _ _ ↦ trivial
  · unfold IdempotencyInterceptor.reply
    cases hslot : req.slot shaKey with
    | none =>
      refine (justified_handler next fun works l hworks ↦ .passed (by simpa using hworks)).follow fun result past h ↦ ?_
      obtain ⟨works, rfl, hworks⟩ := h
      refine ⟨fun q hq req' hlabel ↦ ?_, _, rfl, .passed hslot⟩
      have hwork := hworks q (by simpa using hq)
      rw [hlabel] at hwork
      cases hwork
    | some key =>
      refine ⟨.draw rfl hasks htenant, fun s ↦ ?_⟩
      have hd : Draws shaKey req key s.nextHolder
          (intercepted (.randomUUID req) s : Event (InterceptStep ω ε η β) (Interception η β τ)) := ⟨rfl, hslot, rfl⟩
      have honly {past : List (Event (InterceptStep ω ε η β) (Interception η β τ))}
          (honce : ∀ q ∈ past, ∀ req', q.label = .randomUUID req' → q = intercepted (.randomUUID req) s) :
          ∀ q ∈ past, ∀ req', q.label = .randomUUID req' → req' = req := by
        intro q hq req' hlabel
        rw [honce q hq req' hlabel] at hlabel
        cases hlabel
        rfl
      have hasking : Asking (intercepted (.randomUUID req) s : Event (InterceptStep ω ε η β) (Interception η β τ))
          [intercepted (.randomUUID req) s] :=
        ⟨List.mem_singleton_self _, List.forall_mem_singleton.mpr fun _ _ ↦ rfl, List.forall_mem_singleton.mpr rfl⟩
      refine (justified_acquire 2 hd ?_ hasking (by simp)).bind (fun existing past h ↦ ?_) fun e past h ↦ ?_
      · exact ⟨List.forall_mem_singleton.mpr fun key holder ⟨hash, hlabel, _⟩ ↦ (by cases hlabel),
          List.forall_mem_singleton.mpr fun key record h ↦ (by cases h.1), List.forall_mem_singleton.mpr rfl⟩
      · obtain ⟨hasking, hacquired⟩ := h
        cases existing with
        | none =>
          obtain ⟨hr, hwins⟩ := hacquired
          exact (justified_handle hslot hd hasking hr hwins).mono (fun _ _ h ↦ h) fun _ _ h ↦ ⟨honly h.1, h.2⟩
        | some record => exact ⟨honly hasking.once, _, rfl, replies_judge hslot hacquired⟩
      · cases h.2
  · obtain ⟨honce, reply', heq, hreplies⟩ := h
    cases heq
    exact ⟨.respond honce hreplies, fun _ ↦ trivial⟩

theorem intercepts_justified {p : InterceptRequest ω τ ε η β Unit}
    (h : Intercepts ω τ ε β shaKey shaBody Asks p) : p.Heeds (Justified shaKey shaBody Asks) (fun _ _ ↦ True) [] := by
  cases h with
  | intercept req next hasks htenant => exact justified_intercept hasks htenant
  | work p =>
    exact (justified_handler p fun works l hworks ↦ .passed (by simpa using hworks)).mono (fun _ _ h ↦ h)
      fun _ _ _ ↦ trivial
  | tick ms => exact ⟨.tick, fun _ ↦ trivial⟩

variable {w w' : Interception η β τ} {cs : List (Call (InterceptStep ω ε η β) (Interception η β τ) ε)}
  {es : List (ℕ × Event (InterceptStep ω ε η β) (Interception η β τ))}

theorem justified_of_makes (h : Calls (Intercepts ω τ ε β shaKey shaBody Asks) w cs w' es) {i n : ℕ}
    {e : Event (InterceptStep ω ε η β) (Interception η β τ)} (he : Makes es i n e) :
    Justified shaKey shaBody Asks (own n (es.take i)) e.label :=
  h.heeds_own (fun _ hp ↦ intercepts_justified hp) he

end Towing.Common
