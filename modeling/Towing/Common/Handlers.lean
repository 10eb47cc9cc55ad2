import Towing.Common.Slots
import Towing.Process.Projection

namespace Towing.Common

open Towing.Process

variable {ω τ ε η β α : Type} {shaKey : String → String} {shaBody : Json × Json → η}

namespace InterceptStep

/-- The step of a handler. -/
def work? : InterceptStep ω ε η β → Option ω
  | .work l => some l
  | _ => none

/-- A step that is neither the handler's nor about its answer. -/
def isPlain : InterceptStep ω ε η β → Bool
  | .randomUUID _ | .setNX _ _ _ | .get _ | .finish _ | .release _ _ _ | .tick _ => true
  | .work _ | .complete _ _ _ _ _ | .respond _ _ => false

theorem work?_of_isPlain {l : InterceptStep ω ε η β} (h : l.isPlain = true) : l.work? = none := by
  cases l with
  | work l => cases h
  | _ => rfl

end InterceptStep

/-- What the handlers have done. -/
abbrev worked (es : List (ℕ × Event (InterceptStep ω ε η β) (Interception η β τ))) : List (ℕ × Event ω τ) :=
  projected InterceptStep.work? Interception.inner es

/-- What a request has its handler do. -/
def workedBy (past : List (Event (InterceptStep ω ε η β) (Interception η β τ))) : List (Event ω τ) :=
  past.filterMap fun e ↦ e.label.work?.map fun l ↦ ⟨l, e.before.inner, e.after.inner⟩

/-- The answer that a reply carries. -/
def Reply.answer : Reply ε β → Option (Except ε (ℕ × β))
  | .handled result => some result
  | .replayed status body => some (.ok (status, body))
  | .replayMismatch | .stillProcessed => none

theorem follow_bind {ℓ σ γ : Type} (p : Proc ℓ σ ε α) (k : Except ε α → Proc ℓ σ ε γ) (f : γ → Proc ℓ σ ε Unit) :
    (p.follow k).bind f = p.follow fun r ↦ (k r).bind f := by
  induction p with
  | done r => rfl
  | step l next ih =>
    simp only [Proc.follow, Proc.bind]
    congr 1
    funext s
    exact ih s

variable [DecidableEq η]

/-- Requests through the interceptor, their handlers among those named. -/
inductive Handles (shaKey : String → String) (shaBody : Json × Json → η) (Handler : Proc ω τ ε (ℕ × β) → Prop)
    (Beside : Proc ω τ ε Unit → Prop) : InterceptRequest ω τ ε η β Unit → Prop
  | intercept (req : HttpRequest) {next : Proc ω τ ε (ℕ × β)} : ':' ∉ req.tenant.toList → Handler next →
      Handles shaKey shaBody Handler Beside (IdempotencyInterceptor.intercept shaKey shaBody req next)
  | work {p : Proc ω τ ε Unit} : Beside p → Handles shaKey shaBody Handler Beside (IdempotencyInterceptor.handler p)
  | tick (ms : ℕ) : Handles shaKey shaBody Handler Beside (Proc.write (.tick ms))

variable {Handler : Proc ω τ ε (ℕ × β) → Prop} {Beside : Proc ω τ ε Unit → Prop}

theorem intercepts_of_handles [Store ω τ] {p : InterceptRequest ω τ ε η β Unit}
    (h : Handles shaKey shaBody Handler Beside p) : Intercepts ω τ ε β shaKey shaBody (fun _ ↦ True) p := by
  cases h with
  | intercept req htenant _ => exact .intercept req _ trivial htenant
  | work _ => exact .work _
  | tick ms => exact .tick ms

omit [DecidableEq η] in
theorem acquire_plain (key : List Char) (hash : η) (holder attempts : ℕ) :
    (IdempotencyInterceptor.acquire key hash holder attempts : InterceptRequest ω τ ε η β _).Only
      fun l ↦ l.isPlain = true := by
  induction attempts with
  | zero => trivial
  | succ attempts ih =>
    refine Proc.Only.bind (by simp [InterceptStep.isPlain]) fun won ↦ ?_
    split_ifs
    · trivial
    · refine Proc.Only.bind (by simp [InterceptStep.isPlain]) fun raw ↦ ?_
      cases raw with
      | none => exact ih
      | some record => trivial

omit [DecidableEq η] in
theorem shadows_beside {p : InterceptRequest ω τ ε η β α} {f : α → InterceptRequest ω τ ε η β Unit}
    {q : Proc ω τ ε Unit} (hp : p.Only fun l ↦ l.isPlain = true)
    (hf : ∀ a, (f a).Shadows InterceptStep.work? Interception.inner q) :
    (p.bind f).Shadows InterceptStep.work? Interception.inner q :=
  .bind (hp.mono fun _ ↦ InterceptStep.work?_of_isPlain) hf

omit [DecidableEq η] in
theorem shadows_handler {next : Proc ω τ ε α} {k : Except ε α → InterceptRequest ω τ ε η β Unit}
    {g : α → Proc ω τ ε Unit} (hk : ∀ r, (k r).Only fun l ↦ l.work? = none) :
    ((IdempotencyInterceptor.handler next).follow k).Shadows InterceptStep.work? Interception.inner (next.bind g) :=
  Proc.Shadows.lift_follow (fun l ↦ (rfl : (InterceptStep.work l).work? = some l)) hk

/-- Of what a request does, its handler is the part that works on the tables. -/
theorem shadows_intercept (req : HttpRequest) (next : Proc ω τ ε (ℕ × β)) :
    (IdempotencyInterceptor.intercept shaKey shaBody req next :
      InterceptRequest ω τ ε η β Unit).Shadows InterceptStep.work? Interception.inner next.ignore := by
  unfold IdempotencyInterceptor.intercept IdempotencyInterceptor.reply
  simp only [Proc.bind_eq]
  cases req.slot shaKey with
  | none =>
    simp only [follow_bind]
    exact shadows_handler fun r ↦ ⟨rfl, fun _ ↦ trivial⟩
  | some key =>
    simp only [Proc.bind_assoc]
    refine shadows_beside (by simp [InterceptStep.isPlain]) fun holder ↦ ?_
    refine shadows_beside (acquire_plain _ _ _ _) fun existing ↦ ?_
    cases existing with
    | some record => exact fun _ ↦ trivial
    | none =>
      simp only [IdempotencyInterceptor.handle, follow_bind]
      refine shadows_handler fun r ↦ ⟨rfl, fun _ ↦ ?_⟩
      cases r with
      | ok answer => exact ⟨rfl, fun _ ↦ ⟨rfl, fun _ ↦ trivial⟩⟩
      | error e => exact ⟨rfl, fun _ ↦ ⟨rfl, fun _ ↦ trivial⟩⟩

variable [Store ω τ]

theorem projects_inner : Projects (InterceptStep.work? : InterceptStep ω ε η β → Option ω)
    (Interception.inner : Interception η β τ → τ) where
  within l' l s h := by
    cases l' with
    | work l' =>
      cases h
      rfl
    | _ => cases h
  beside l' s h := by
    cases l' with
    | work l => cases h
    | setNX key hash holder =>
      change (Interception.run s _).inner = _
      simp only [Interception.run]
      split_ifs <;> rfl
    | complete key hash holder status body =>
      change (Interception.run s _).inner = _
      simp only [Interception.run]
      split_ifs <;> rfl
    | release key hash holder =>
      change (Interception.run s _).inner = _
      simp only [Interception.run]
      split_ifs <;> rfl
    | _ => rfl

variable {w w' : Interception η β τ} {cs : List (Call (InterceptStep ω ε η β) (Interception η β τ) ε)}
  {es : List (ℕ × Event (InterceptStep ω ε η β) (Interception η β τ))} {Req : Proc ω τ ε Unit → Prop}

/-- A run through the interceptor is a run of the handlers. -/
theorem calls_worked (h : Calls (Handles shaKey shaBody Handler Beside) w cs w' es)
    (hhandler : ∀ next, Handler next → Req next.ignore) (hbeside : ∀ p, Beside p → Req p) (hidle : Req (pure ())) :
    ∃ cs', Calls Req w.inner cs' w'.inner (worked es) := by
  obtain ⟨cs', h', -⟩ := h.projected projects_inner fun p hp ↦ by
    cases hp with
    | intercept req _ hnext => exact ⟨_, hhandler _ hnext, shadows_intercept req _⟩
    | @work p hp =>
      exact ⟨p, hbeside p hp, .lift (fun l ↦ (rfl : (InterceptStep.work l).work? = some l)) p⟩
      | tick ms => exact ⟨_, hidle, fun _ ↦ trivial⟩
  exact ⟨cs', h'⟩

/-- What is stored, or leaves the server, is the answer of the handler that the request
has had run, of which `Q` holds. -/
def Ended (Q : Except ε (ℕ × β) → List (Event ω τ) → Prop)
    (past : List (Event (InterceptStep ω ε η β) (Interception η β τ))) : InterceptStep ω ε η β → Prop
  | .complete _ _ _ status body => Q (.ok (status, body)) (workedBy past)
  | .respond _ (.handled result) => Q result (workedBy past)
  | _ => True

variable {Q : Except ε (ℕ × β) → List (Event ω τ) → Prop}
  {past : List (Event (InterceptStep ω ε η β) (Interception η β τ))}

omit [Store ω τ] [DecidableEq η] in
theorem workedBy_plain {l : InterceptStep ω ε η β} (hl : l.work? = none) (s t : Interception η β τ) :
    workedBy (past ++ [⟨l, s, t⟩]) = workedBy past := by
  simp [workedBy, hl]

omit [Store ω τ] [DecidableEq η] in
theorem ended_of_isPlain {l : InterceptStep ω ε η β} (hl : l.isPlain = true) : Ended Q past l := by
  cases l with
  | work l => cases hl
  | complete key hash holder status body => cases hl
  | respond req reply => cases hl
  | _ => trivial

theorem ended_plain {p : InterceptRequest ω τ ε η β α} (hp : p.Only fun l ↦ l.isPlain = true)
    (hpast : workedBy past = []) : p.Heeds (Ended Q) (fun _ past ↦ workedBy past = []) past := by
  induction p generalizing past with
  | done r => exact hpast
  | step l next ih =>
    refine ⟨ended_of_isPlain hp.1, fun s ↦ ih s (hp.2 s) ?_⟩
    rw [workedBy_plain (InterceptStep.work?_of_isPlain hp.1), hpast]

theorem ended_handler {R : Except ε α → List (Event ω τ) → Prop} {next : Proc ω τ ε α} {works : List (Event ω τ)}
    (h : next.Heeds (fun _ _ ↦ True) R works) (hpast : workedBy past = works) :
    (IdempotencyInterceptor.handler next : InterceptRequest ω τ ε η β α).Heeds (Ended Q)
      (fun r past ↦ R r (workedBy past)) past := by
  induction next generalizing past works with
  | done r =>
    subst hpast
    exact h
  | step l next ih =>
    refine ⟨trivial, fun s ↦ ih s.inner (h.2 s.inner) ?_⟩
    rw [workedBy, List.filterMap_append, ← hpast]
    rfl

theorem ended_beside (p : Proc ω τ ε α) : (IdempotencyInterceptor.handler p :
    InterceptRequest ω τ ε η β α).Heeds (Ended Q) (fun _ _ ↦ True) past := by
  induction p generalizing past with
  | done r => trivial
  | step l next ih => exact ⟨trivial, fun s ↦ ih s.inner⟩

theorem ended_intercept (req : HttpRequest) {next : Proc ω τ ε (ℕ × β)}
    (h : next.Heeds (fun _ _ ↦ True) Q []) :
    (IdempotencyInterceptor.intercept shaKey shaBody req next : InterceptRequest ω τ ε η β Unit).Heeds (Ended Q)
      (fun _ _ ↦ True) [] := by
  refine Proc.Heeds.bind (Q := fun answer past ↦ ∀ reply, answer = .ok reply →
    Ended Q past (.respond req reply)) ?_ (fun reply past hreply ↦ ?_) fun _ _ _ ↦ trivial
  · unfold IdempotencyInterceptor.reply
    cases req.slot shaKey with
    | none =>
      refine (ended_handler h rfl).follow fun result past hresult ↦ ?_
      rintro reply ⟨⟩
      exact hresult
    | some key =>
      refine (ended_plain (by simp [InterceptStep.isPlain]) rfl).bind (fun holder past hpast ↦ ?_) (by simp)
      refine (ended_plain (acquire_plain _ _ _ _) hpast).bind (fun existing past hpast ↦ ?_) (by simp)
      cases existing with
      | some record =>
        rintro reply ⟨⟩
        unfold IdempotencyInterceptor.judge
        split_ifs
        · trivial
        · cases record <;> trivial
      | none =>
        refine (ended_handler h hpast).follow fun result past hresult ↦ ⟨trivial, fun s ↦ ?_⟩
        have hfinish : Q result (workedBy (past ++ [intercepted (.finish key) s])) := by
          rwa [workedBy_plain rfl]
        cases result with
        | ok answer =>
          refine ⟨hfinish, fun s' ↦ ?_⟩
          rintro reply ⟨⟩
          change Q _ _
          rwa [workedBy_plain rfl]
        | error e =>
          refine ⟨trivial, fun s' ↦ ?_⟩
          rintro reply ⟨⟩
          change Q _ _
          rwa [workedBy_plain rfl]
  · exact ⟨hreply reply rfl, fun _ ↦ trivial⟩

/-- Every answer that leaves the server, for the first time or again, has been given by
a handler, and `Q` holds of it. -/
theorem delivered (h : Calls (Handles shaKey shaBody Handler Beside) w cs w' es) (hempty : ∀ key, w.records key = none)
    (hQ : ∀ next, Handler next → next.Heeds (fun _ _ ↦ True) Q []) {k n : ℕ} {req : HttpRequest} {reply : Reply ε β}
    {answer : Except ε (ℕ × β)} {e : Event (InterceptStep ω ε η β) (Interception η β τ)} (he : Makes es k n e)
    (hl : e.label = .respond req reply) (hanswer : reply.answer = some answer) :
    ∃ i m, i ≤ k ∧ (∀ result, reply = .handled result → m = n) ∧ Q answer (own m (worked (es.take i))) := by
  have hended {i m : ℕ} {f : Event (InterceptStep ω ε η β) (Interception η β τ)} (hf : Makes es i m f) :
      Ended Q (own m (es.take i)) f.label := by
    obtain ⟨c, -, hended⟩ := h.heeds_at (Φ := fun _ ↦ Ended Q) (fun p hp ↦ by
      cases hp with
      | intercept req _ hnext => exact ended_intercept req (hQ _ hnext)
      | work _ =>
        exact ended_beside _
      | tick ms => exact ⟨trivial, fun _ ↦ trivial⟩) hf
    exact hended
  have hworked {i m : ℕ} : workedBy (own m (es.take i)) = own m (worked (es.take i)) := (own_projected m _).symm
  have hintercepts : Calls (Intercepts ω τ ε β shaKey shaBody fun _ ↦ True) w cs w' es :=
    h.mono fun p ↦ intercepts_of_handles
  cases reply with
  | handled result =>
    obtain rfl := Option.some.inj hanswer
    have := hended he
    rw [hl] at this
    exact ⟨k, n, le_rfl, fun _ _ ↦ rfl, hworked ▸ this⟩
  | replayed status body =>
    obtain rfl := Option.some.inj hanswer
    have hjustified := justified_of_makes hintercepts he
    rw [hl] at hjustified
    cases hjustified with
    | handles hhandles _ _ _ => cases hhandles
    | respond _ hreplies =>
      cases hreplies with
      | replayed hslot hg hfinds =>
        obtain ⟨j, hjk, hg⟩ := makes_of_own hg
        obtain ⟨expiry, hrecords, -⟩ := Interception.records_of_record _ hfinds.2
        obtain ⟨m, i, f, hij, hf, hputs, hlast⟩ := exists_occupier hintercepts (hempty _) hg (by rw [hrecords]; simp)
        rcases record_of_put hintercepts hij hf hputs hlast hg hfinds.2 with ⟨_, _, _, heq⟩ | ⟨_, _, _, hstores, heq⟩
        · cases heq
        · cases heq
          obtain ⟨holder, hcomplete, -⟩ := hstores
          have := hended hf
          rw [hcomplete] at this
          exact ⟨i, m, by omega, fun _ heq ↦ (by cases heq), hworked ▸ this⟩
  | replayMismatch => cases hanswer
  | stillProcessed => cases hanswer

omit [DecidableEq η] [Store ω τ] in
/-- What a handler has done by some moment of the run, it does in the run of the handlers. -/
theorem makes_worked {i m : ℕ} {e : Event ω τ} (he : e ∈ own m (worked (es.take i))) : ∃ j, Makes (worked es) j m e := by
  obtain ⟨pre, post, heq⟩ := of_mem_own he
  have hsplit : worked es = worked (es.take i) ++ worked (es.drop i) := by
    rw [← projected_append, List.take_append_drop]
  refine ⟨pre.length, ?_⟩
  unfold Makes
  rw [hsplit, heq]
  simp

end Towing.Common
