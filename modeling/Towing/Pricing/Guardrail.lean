import Towing.Pricing.FreshCard

namespace Towing.Pricing

open Towing.Process Towing.Money AdminConfigService

/-- The percentages that a step writes. -/
def Step.bands : Step → List (Band × Pct)
  | .write (.commission bands _) => bands
  | _ => []

/-- The proposal whose percentages a step writes. -/
def Step.writesFor : Step → Option ℕ
  | .write (.commission _ proposal) => proposal
  | _ => none

def Step.upserts : Step → Option Guardrail
  | .upsertGuardrail body => some body
  | _ => none

/-- The step writes no percentages, no guardrail and no verdict. -/
def Step.calm : Step → Bool
  | .write (.commission _ _) | .upsertGuardrail _ | .decide _ _ => false
  | _ => true

/-- Every live percentage lies within the guardrail. -/
def World.Inside (w : World) : Prop := ∀ row ∈ w.rates.commission, within (window w.guardrail) row.pct = true

/-- The commit finds the proposal open. -/
def FindsOpen (p : ℕ) (q : Event Step World) : Prop :=
  q.label = .selectProposal p ∧ ∃ proposal, q.before.proposals[p]? = some proposal ∧ proposal.status = .opened

/-- What a request has read before it writes. -/
inductive Checked (past : List (Event Step World)) : Step → Prop
  | calm {l : Step} : l.calm = true → Checked past l
  | rates {bands : List (Band × Pct)} {proposal : Option ℕ} :
      (∃ q ∈ past, q.label = .selectGuardrail ∧ ∀ b ∈ bands, within (window q.before.guardrail) b.2 = true) →
      (∀ p, proposal = some p → ∃ q ∈ past, FindsOpen p q) → Checked past (.write (.commission bands proposal))
  | guardrail {body : Guardrail} : (∃ q ∈ past, q.label = .select .commission ∧
      ∀ row ∈ q.before.rates.commission, within (body.floorPct, body.capPct) row.pct = true) →
      Checked past (.upsertGuardrail body)
  | decide {p : ℕ} {status : ProposalStatus} : status ≠ .opened → (∃ q ∈ past, FindsOpen p q) →
      Checked past (.decide p status)

section Requests

variable {past : List (Event Step World)} {α : Type}

/-- Calm steps, before which `R` has come about. -/
theorem calm_then {β : Type} {p : Request α} {f : α → Request β}
    {Q : Except Refusal β → List (Event Step World) → Prop} {R : List (Event Step World) → Prop}
    (hp : p.Only fun l ↦ l.calm = true) (hR : ∀ past e, R past → R (past ++ [e])) (hpast : R past)
    (hf : ∀ a past', R past' → (f a).Heeds Checked Q past')
    (herror : ∀ e past', R past' → Q (.error e) past') : (p.bind f).Heeds Checked Q past :=
  (Proc.Heeds.of_only hp (fun _ _ _ hl ↦ .calm hl) hR hpast).bind hf herror

theorem checked_of_calm {p : Request α} (hp : p.Only fun l ↦ l.calm = true) :
    p.Heeds Checked (fun _ _ ↦ True) past :=
  Proc.Heeds.of_only (R := fun _ ↦ True) hp (fun _ _ _ hl ↦ .calm hl) (fun _ _ _ ↦ trivial) trivial

theorem calm_select (tables : List Table) (selected : Rates) :
    (PricingConfigRepo.select tables selected).Only fun l ↦ l.calm = true := by
  induction tables generalizing selected with
  | nil => trivial
  | cons table tables ih => exact ⟨rfl, fun s ↦ ih _⟩

theorem calm_load (redis : Redis) (order : List Table) :
    (PricingConfigRepo.load redis order).Only fun l ↦ l.calm = true := by
  refine Proc.Only.bind ⟨rfl, fun s ↦ ?_⟩ fun card ↦ ⟨rfl, fun _ ↦ trivial⟩
  simp only [Proc.bind_ok]
  split
  · trivial
  · refine Proc.Only.bind ?_ fun _ ↦ ⟨rfl, fun _ ↦ trivial⟩
    exact (calm_select order _).bind fun _ ↦ trivial

theorem calm_getPricing : getPricing.Only fun l ↦ l.calm = true := by
  refine ⟨rfl, fun s ↦ ?_⟩
  simp only [Proc.bind_ok]
  split_ifs
  · trivial
  · exact ⟨rfl, fun _ ↦ trivial⟩

theorem calm_getCommission : getCommission.Only fun l ↦ l.calm = true := ⟨rfl, fun _ ↦ ⟨rfl, fun _ ↦ trivial⟩⟩

theorem calm_audit : audit.Only fun l ↦ l.calm = true := ⟨rfl, fun _ ↦ trivial⟩

/-- The bust and the answer. -/
theorem calm_settle (redis : Redis) :
    ((PricingConfigRepo.invalidate redis).bind fun _ ↦ returned).Only fun l ↦ l.calm = true :=
  ⟨rfl, fun _ ↦ ⟨rfl, fun _ ↦ trivial⟩⟩

/-- A row has been seen that was, or still is, what it has to be. -/
theorem seen_concat {P : Event Step World → Prop} (past : List (Event Step World)) (e : Event Step World)
    (h : ∃ q ∈ past, P q) : ∃ q ∈ past ++ [e], P q := by
  obtain ⟨q, hq, hP⟩ := h
  exact ⟨q, List.mem_append_left _ hq, hP⟩

theorem checked_writeCommission (redis : Redis) (bands : List (Band × Pct)) {proposal : Option ℕ}
    (hproposal : ∀ p, proposal = some p → ∃ q ∈ past, FindsOpen p q) :
    (writeCommission redis bands proposal).Heeds Checked
      (fun _ past' ↦ ∀ p, proposal = some p → ∃ q ∈ past', FindsOpen p q) past := by
  have hmono : ∀ (past : List (Event Step World)) e, (∀ p, proposal = some p → ∃ q ∈ past, FindsOpen p q) →
      ∀ p, proposal = some p → ∃ q ∈ past ++ [e], FindsOpen p q :=
    fun past e h p hp ↦ seen_concat past e (h p hp)
  refine ⟨.calm rfl, fun s ↦ ?_⟩
  simp only [Proc.bind_ok]
  split_ifs with hbands
  · refine calm_then calm_getCommission hmono (hmono _ _ hproposal) (fun _ past' h ↦ ?_) fun _ _ h ↦ h
    exact calm_then calm_audit hmono h (fun _ _ h ↦ h) fun _ _ h ↦ h
  · let R (past : List (Event Step World)) : Prop :=
      (∃ q ∈ past, q.label = .selectGuardrail ∧ ∀ b ∈ bands, within (window q.before.guardrail) b.2 = true) ∧
        ∀ p, proposal = some p → ∃ q ∈ past, FindsOpen p q
    have hR : ∀ past e, R past → R (past ++ [e]) := fun past e h ↦ ⟨seen_concat past e h.1, hmono past e h.2⟩
    have hseen : R (past ++ [configured .selectGuardrail s]) := by
      refine ⟨⟨_, List.mem_append_right _ List.mem_cons_self, rfl, fun b hb ↦ ?_⟩, hmono _ _ hproposal⟩
      have hwithin := hbands
      simp only [List.any_eq_true, Bool.not_eq_true', not_exists, not_and, Bool.not_eq_false] at hwithin
      exact hwithin b hb
    refine calm_then calm_getCommission hR hseen (fun _ past' h ↦ ?_) fun _ _ h ↦ h.2
    refine calm_then calm_audit hR h (fun _ past' h ↦ ⟨.rates h.1 h.2, fun s' ↦ ?_⟩) fun _ _ h ↦ h.2
    have hthen := (hR _ (configured (.write (.commission bands proposal)) s') h).2
    exact ⟨.calm rfl, fun _ ↦ ⟨.calm rfl, fun _ ↦ ⟨.calm rfl, fun _ ↦ hmono _ _ (hmono _ _ (hmono _ _ hthen))⟩⟩⟩

/-- What is done with a proposal has found it open. -/
theorem checked_openProposal {β : Type} (p : ℕ) {f : CommissionProposal → Request β}
    {Q : Except Refusal β → List (Event Step World) → Prop}
    (hf : ∀ proposal past', (∃ q ∈ past', FindsOpen p q) → (f proposal).Heeds Checked Q past')
    (herror : ∀ e past', Q (.error e) past') : ((openProposal p).bind f).Heeds Checked Q past := by
  refine ⟨.calm rfl, fun s ↦ ?_⟩
  cases hfound : s.proposals[p]? with
  | none =>
    simp only [hfound]
    exact herror _ _
  | some proposal =>
    simp only [hfound]
    split_ifs with hopen
    · refine hf proposal _ ⟨_, List.mem_append_right _ List.mem_cons_self, rfl, proposal, hfound, hopen⟩
    · exact herror _ _

theorem configures_checked {p : Request Unit} (h : Configures p) : p.Heeds Checked (fun _ _ ↦ True) [] := by
  cases h with
  | load redis order _ => exact checked_of_calm (calm_load redis order).ignore
  | updatePricing redis charges rules =>
    refine checked_of_calm (calm_getPricing.bind fun _ ↦ ?_)
    refine Proc.Only.bind ⟨rfl, fun _ ↦ trivial⟩ fun _ ↦ ?_
    exact calm_getPricing.bind fun _ ↦ calm_audit.bind fun _ ↦ calm_settle redis
  | createPricingRule redis row =>
    refine checked_of_calm (Proc.Only.bind ⟨rfl, fun _ ↦ trivial⟩ fun _ ↦ ?_)
    exact calm_audit.bind fun _ ↦ calm_settle redis
  | deactivatePricingRule redis ruleId =>
    refine checked_of_calm ⟨rfl, fun s ↦ ?_⟩
    simp only [Proc.bind_ok]
    split
    · trivial
    · split_ifs
      · exact ⟨rfl, fun _ ↦ trivial⟩
      · refine Proc.Only.bind ⟨rfl, fun _ ↦ trivial⟩ fun _ ↦ ?_
        exact calm_audit.bind fun _ ↦ calm_settle redis
  | updateCommission redis bands =>
    exact (checked_writeCommission redis bands (by simp)).bind (fun _ _ _ ↦ ⟨.calm rfl, fun _ ↦ trivial⟩)
      fun _ _ _ ↦ trivial
  | updateGuardrail body =>
    refine ⟨.calm rfl, fun s ↦ ⟨.calm rfl, fun s' ↦ ?_⟩⟩
    simp only [Proc.bind_ok]
    split_ifs with hlive
    · exact ⟨.calm rfl, fun _ ↦ trivial⟩
    · refine ⟨.guardrail ⟨_, List.mem_append_right _ List.mem_cons_self, rfl, fun row hrow ↦ ?_⟩, fun _ ↦ ?_⟩
      · simp only [List.any_eq_true, Bool.not_eq_true', not_exists, not_and, Bool.not_eq_false] at hlive
        exact hlive row hrow
      · exact ⟨.calm rfl, fun _ ↦ ⟨.calm rfl, fun _ ↦ ⟨.calm rfl, fun _ ↦ ⟨.calm rfl, fun _ ↦ trivial⟩⟩⟩⟩
  | createCommissionProposal band pct =>
    exact checked_of_calm (Proc.Only.bind ⟨rfl, fun _ ↦ trivial⟩ fun _ ↦ calm_audit)
  | applyCommissionProposal redis proposalId =>
    refine checked_openProposal proposalId (fun proposal past' hopen ↦ ?_) fun _ _ ↦ trivial
    have hfound : ∀ p, some proposalId = some p → ∃ q ∈ past', FindsOpen p q := by
      intro p hp
      cases hp
      exact hopen
    refine (checked_writeCommission redis _ hfound).bind (fun _ past'' h ↦ ?_) fun _ _ _ ↦ trivial
    exact ⟨.decide (by simp) (h proposalId rfl), fun _ ↦ ⟨.calm rfl, fun _ ↦ ⟨.calm rfl, fun _ ↦ trivial⟩⟩⟩
  | declineCommissionProposal proposalId =>
    refine checked_openProposal proposalId (fun proposal past' hopen ↦ ?_) fun _ _ ↦ trivial
    exact ⟨.decide (by simp) hopen, fun _ ↦ ⟨.calm rfl, fun _ ↦ trivial⟩⟩
  | updateConfig redis before after patch _ _ =>
    refine checked_of_calm ((calm_load redis before).bind fun _ ↦ ?_)
    split_ifs
    · trivial
    · refine Proc.Only.bind ⟨rfl, fun _ ↦ trivial⟩ fun _ ↦ Proc.Only.bind ⟨rfl, fun _ ↦ trivial⟩ fun _ ↦ ?_
      refine Proc.Only.bind ⟨rfl, fun _ ↦ trivial⟩ fun _ ↦ (calm_load redis after).bind fun _ ↦ ?_
      exact calm_audit.bind fun _ ↦ ⟨rfl, fun _ ↦ trivial⟩
  | tick ms => exact ⟨.calm rfl, fun _ ↦ trivial⟩

end Requests

theorem setPct_all {P : Pct → Prop} {rows : List CommissionRow} {bands : List (Band × Pct)}
    (hrows : ∀ row ∈ rows, P row.pct) (hbands : ∀ b ∈ bands, P b.2) : ∀ row ∈ setPct rows bands, P row.pct := by
  induction bands generalizing rows with
  | nil => exact hrows
  | cons b bands ih =>
    obtain ⟨hb, hbands⟩ := List.forall_mem_cons.mp hbands
    refine ih (fun row hrow ↦ ?_) hbands
    obtain ⟨old, hold, rfl⟩ := List.mem_map.mp hrow
    split_ifs
    · exact hb
    · exact hrows old hold

theorem commission_run (w : World) (l : Step) : (w.run l).rates.commission = setPct w.rates.commission l.bands := by
  cases l with
  | write write =>
    cases write with
    | pricing charges rules =>
      simp only [World.run, Rates.after]
      split_ifs <;> rfl
    | createRule row =>
      simp only [World.run, Rates.after]
      split_ifs <;> rfl
    | _ => rfl
  | redisSet _ _ _ reachable => cases reachable <;> rfl
  | redisDel _ reachable => cases reachable <;> rfl
  | insertProposal band pct =>
    simp only [World.run]
    split_ifs <;> rfl
  | _ => rfl

theorem guardrail_run (w : World) (l : Step) : (w.run l).guardrail = l.upserts.or w.guardrail := by
  cases l with
  | redisSet _ _ _ reachable => cases reachable <;> rfl
  | redisDel _ reachable => cases reachable <;> rfl
  | insertProposal band pct =>
    simp only [World.run]
    split_ifs <;> rfl
  | _ => rfl

/-- A proposal stays as it is, but for its verdict. -/
theorem proposal_run {w : World} {l : Step} {p : ℕ} {proposal : CommissionProposal} (h : w.proposals[p]? = some proposal) :
    (w.run l).proposals[p]? = some proposal ∨
      ∃ status, l = .decide p status ∧ (w.run l).proposals[p]? = some { proposal with status } := by
  cases l with
  | decide id status =>
    by_cases hid : id = p
    · subst hid
      exact .inr ⟨status, rfl, by simp [World.run, h]⟩
    · exact .inl (by simp [World.run, hid, h])
  | insertProposal band pct =>
    simp only [World.run]
    split_ifs
    · exact .inl h
    · exact .inl (by rw [List.getElem?_append_left (List.getElem?_eq_some_iff.mp h).1, h])
  | redisSet _ _ _ reachable => cases reachable <;> exact .inl h
  | redisDel _ reachable => cases reachable <;> exact .inl h
  | _ => exact .inl h

section Runs

variable {w w' : World} {cs : List (Call Step World Refusal)} {es : List (ℕ × Event Step World)} {c i j k m n p : ℕ}
  {e f q : Event Step World}

theorem checked_of_makes (h : Calls Configures w cs w' es) (he : Makes es i n e) :
    Checked (own n (es.take i)) e.label := by
  obtain ⟨call, -, hchecked⟩ := h.heeds_at (Φ := fun _ ↦ Checked) (fun p hp ↦ configures_checked hp) he
  exact hchecked

/-- What the claims of the guardrail and of the proposals come to. -/
structure Guarded (es : List (ℕ × Event Step World)) : Prop where
  inside : ∀ i n e, Makes es i n e → e.after.Inside
  /-- A verdict is not changed. -/
  verdict : ∀ (i n : ℕ) (e : Event Step World) (p : ℕ) (proposal : CommissionProposal), Makes es i n e → e.before.proposals[p]? = some proposal →
    proposal.status ≠ .opened → e.after.proposals[p]? = some proposal
  /-- The percentages of a proposal are written once. -/
  written : ∀ i j n m e f p, Makes es i n e → e.label.writesFor = some p → Makes es j m f →
    f.label.writesFor = some p → i = j

/-- Nothing that a write has been checked against is overturned before it, and an application
is finished before another looks at the proposal. -/
structure Unskewed (es : List (ℕ × Event Step World)) : Prop where
  rates : ∀ k j c n m q f e bands proposal body, Makes es k n q → q.label = .selectGuardrail → Makes es c n e →
    e.label = .write (.commission bands proposal) → k < j → j < c → Makes es j m f → f.label = .upsertGuardrail body →
    ∀ b ∈ bands, within (body.floorPct, body.capPct) b.2 = true
  guardrail : ∀ k j c n m q f e body, Makes es k n q → q.label = .select .commission → Makes es c n e →
    e.label = .upsertGuardrail body → k < j → j < c → Makes es j m f →
    ∀ b ∈ f.label.bands, within (body.floorPct, body.capPct) b.2 = true
  verdicts : ∀ k j c n m q f e p status status', Makes es k n q → FindsOpen p q → Makes es c n e →
    e.label = .decide p status → k < j → j < c → Makes es j m f → f.label = .decide p status' → status' = status
  applications : ∀ i k c n m q f e p, Makes es k n q → FindsOpen p q → Makes es c n e → e.label.writesFor = some p →
    k < c → Makes es i m f → f.label.writesFor = some p → i < c →
    i < k ∧ ∃ d o g status, i < d ∧ d < k ∧ Makes es d o g ∧ g.label = .decide p status

/-- A write keeps to the guardrail that is in force when it commits. -/
theorem rates_inside (h : Calls Configures w cs w' es) (hskew : Unskewed es) (he : Makes es c n e)
    {bands : List (Band × Pct)} {proposal : Option ℕ} (hl : e.label = .write (.commission bands proposal)) :
    ∀ b ∈ bands, within (window e.before.guardrail) b.2 = true := by
  have hchecked := checked_of_makes h he
  rw [hl] at hchecked
  cases hchecked with
  | calm hcalm => cases hcalm
  | rates hseen _ =>
    obtain ⟨q, hq, hgets, hbands⟩ := hseen
    obtain ⟨k, hkc, hq⟩ := makes_of_own hq
    obtain ⟨cs', h'⟩ := h.before he
    refine (h'.kept_after (I := fun t ↦ ∀ b ∈ bands, within (window t.guardrail) b.2 = true) (hq.take hkc) ?_
      fun j m f hkj hf hI ↦ ?_).1
    · rw [h.commit_at hq, hgets]
      exact hbands
    · obtain ⟨hjc, hf⟩ := hf.of_take
      rw [h.commit_at hf]
      change ∀ b ∈ bands, within (window (World.run f.before f.label).guardrail) b.2 = true
      rw [guardrail_run]
      cases hupserts : f.label.upserts with
      | none => exact hI
      | some body =>
        have hbody : f.label = .upsertGuardrail body := by
          cases hlabel : f.label with
          | upsertGuardrail body' =>
            rw [hlabel] at hupserts
            cases hupserts
            rfl
          | _ =>
            rw [hlabel] at hupserts
            cases hupserts
        exact hskew.rates k j c n m q f e bands proposal body hq hgets he hl hkj hjc hf hbody

/-- A guardrail has the rates inside that are live when it commits. -/
theorem guardrail_inside (h : Calls Configures w cs w' es) (hskew : Unskewed es) (he : Makes es c n e)
    {body : Guardrail} (hl : e.label = .upsertGuardrail body) :
    ∀ row ∈ e.before.rates.commission, within (body.floorPct, body.capPct) row.pct = true := by
  have hchecked := checked_of_makes h he
  rw [hl] at hchecked
  cases hchecked with
  | calm hcalm => cases hcalm
  | guardrail hseen =>
    obtain ⟨q, hq, hgets, hrows⟩ := hseen
    obtain ⟨k, hkc, hq⟩ := makes_of_own hq
    obtain ⟨cs', h'⟩ := h.before he
    refine (h'.kept_after (I := fun t ↦ ∀ row ∈ t.rates.commission, within (body.floorPct, body.capPct) row.pct = true)
      (hq.take hkc) ?_ fun j m f hkj hf hI ↦ ?_).1
    · rw [h.commit_at hq, hgets]
      exact hrows
    · obtain ⟨hjc, hf⟩ := hf.of_take
      rw [h.commit_at hf]
      change ∀ row ∈ (World.run f.before f.label).rates.commission, _
      rw [commission_run]
      exact setPct_all (P := fun pct ↦ within (body.floorPct, body.capPct) pct = true) hI
        (hskew.guardrail k j c n m q f e body hq hgets he hl hkj hjc hf)

theorem inside_of_unskewed (h : Calls Configures w cs w' es) (hw : w.Inside) (hskew : Unskewed es) (he : Makes es i n e) :
    e.after.Inside := by
  refine ((h.kept (I := World.Inside) hw fun j m f hf hI ↦ ?_).2 i n e he).2
  rw [h.commit_at hf]
  change World.Inside (World.run f.before f.label)
  unfold World.Inside
  rw [commission_run, guardrail_run]
  cases hlabel : f.label with
  | write write =>
    cases write with
    | commission bands proposal =>
      exact setPct_all (P := fun pct ↦ within (window f.before.guardrail) pct = true) hI (rates_inside h hskew hf hlabel)
    | _ => exact hI
  | upsertGuardrail body => exact guardrail_inside h hskew hf hlabel
  | _ => exact hI

/-- The proposal that a commit decides was found open before, and is still there. -/
theorem decides_open (h : Calls Configures w cs w' es) (he : Makes es c n e) {status : ProposalStatus}
    (hl : e.label = .decide p status) : status ≠ .opened ∧ ∃ k q, k < c ∧ Makes es k n q ∧ FindsOpen p q := by
  have hchecked := checked_of_makes h he
  rw [hl] at hchecked
  cases hchecked with
  | calm hcalm => cases hcalm
  | decide hstatus hseen =>
    obtain ⟨q, hq, hopen⟩ := hseen
    obtain ⟨k, hkc, hq⟩ := makes_of_own hq
    exact ⟨hstatus, k, q, hkc, hq, hopen⟩

/-- After it was found open a proposal is there, open or decided as the commits since have it. -/
theorem since_open (h : Calls Configures w cs w' es) (hq : Makes es k n q) (hopen : FindsOpen p q) (hkc : k < c)
    (he : Makes es c m e) {P : ProposalStatus → Prop}
    (hP : ∀ j o f status, k < j → j < c → Makes es j o f → f.label = .decide p status → P status) :
    ∃ proposal, e.before.proposals[p]? = some proposal ∧ (proposal.status = .opened ∨ P proposal.status) := by
  obtain ⟨cs', h'⟩ := h.before he
  obtain ⟨hl, proposal, hfound, hstatus⟩ := hopen
  refine (h'.kept_after (I := fun t ↦ ∃ proposal, t.proposals[p]? = some proposal ∧
    (proposal.status = .opened ∨ P proposal.status)) (hq.take hkc) ?_ fun j o f hkj hf hI ↦ ?_).1
  · rw [h.commit_at hq, hl]
    exact ⟨proposal, hfound, .inl hstatus⟩
  · obtain ⟨hjc, hf⟩ := hf.of_take
    obtain ⟨proposal, hfound, hstatus⟩ := hI
    rw [h.commit_at hf]
    rcases proposal_run (l := f.label) hfound with hsame | ⟨status, hdecide, hthen⟩
    · exact ⟨proposal, hsame, hstatus⟩
    · exact ⟨_, hthen, .inr (hP j o f status hkj hjc hf hdecide)⟩

theorem verdict_of_unskewed (h : Calls Configures w cs w' es) (hskew : Unskewed es) (he : Makes es i n e)
    {proposal : CommissionProposal} (hfound : e.before.proposals[p]? = some proposal) (hdecided : proposal.status ≠ .opened) :
    e.after.proposals[p]? = some proposal := by
  rw [h.commit_at he]
  rcases proposal_run (l := e.label) hfound with hsame | ⟨status, hl, hthen⟩
  · exact hsame
  · obtain ⟨-, k, q, hki, hq, hopen⟩ := decides_open h he hl
    obtain ⟨proposal', hfound', hstatus⟩ := since_open (P := (· = status)) h hq hopen hki he
      fun j o f status' hkj hji hf hdecide ↦ hskew.verdicts k j i n o q f e p status status' hq hopen he hl hkj hji hf hdecide
    obtain rfl := Option.some.inj (hfound.symm.trans hfound')
    obtain rfl := hstatus.resolve_left hdecided
    exact hthen

/-- A proposal that has been decided is not found open again. -/
theorem not_open_after (h : Calls Configures w cs w' es) (he : Makes es c n e) {status : ProposalStatus}
    (hl : e.label = .decide p status) (hq : Makes es k m q) (hopen : FindsOpen p q) : ¬c < k := by
  intro hck
  obtain ⟨hstatus, k₀, q₀, hk₀c, hq₀, hopen₀⟩ := decides_open h he hl
  obtain ⟨proposal, hfound, -⟩ := since_open (P := fun _ ↦ True) h hq₀ hopen₀ hk₀c he fun _ _ _ _ _ _ _ _ ↦ trivial
  obtain ⟨cs', h'⟩ := h.before hq
  have hthen : ∃ proposal, q.before.proposals[p]? = some proposal ∧ proposal.status ≠ .opened := by
    refine (h'.kept_after (I := fun t ↦ ∃ proposal, t.proposals[p]? = some proposal ∧ proposal.status ≠ .opened)
      (he.take hck) ?_ fun j o f hcj hf hI ↦ ?_).1
    · rw [h.commit_at he, hl]
      exact ⟨{ proposal with status }, by simp [World.run, Store.commit, hfound], hstatus⟩
    · obtain ⟨-, hf⟩ := hf.of_take
      obtain ⟨proposal', hfound', hdecided⟩ := hI
      rw [h.commit_at hf]
      rcases proposal_run (l := f.label) hfound' with hsame | ⟨status', hdecide, hthen⟩
      · exact ⟨proposal', hsame, hdecided⟩
      · exact ⟨_, hthen, (decides_open h hf hdecide).1⟩
  obtain ⟨-, proposal', hfound', hstatus'⟩ := hopen
  obtain ⟨proposal'', hfound'', hdecided⟩ := hthen
  obtain rfl := Option.some.inj (hfound'.symm.trans hfound'')
  exact hdecided hstatus'

/-- Between two writings of a proposal it was decided, so the second did not find it open. -/
theorem not_written_again (h : Calls Configures w cs w' es) (hskew : Unskewed es) (he : Makes es i n e)
    (hwrites : e.label.writesFor = some p) (hf : Makes es j m f) (hwrites' : f.label.writesFor = some p) : ¬i < j := by
  intro hij
  have hchecked := checked_of_makes h hf
  cases hlabel : f.label with
  | write write =>
    cases write with
    | commission bands proposal =>
      rw [hlabel] at hchecked
      cases hchecked with
      | calm hcalm => cases hcalm
      | rates _ hopens =>
        have hproposal : proposal = some p := by rwa [hlabel] at hwrites'
        obtain ⟨q, hq, hopen⟩ := hopens p hproposal
        obtain ⟨k, hkj, hq⟩ := makes_of_own hq
        obtain ⟨-, d, o, g, status, -, hdk, hg, hdecide⟩ :=
          hskew.applications i k j m n q e f p hq hopen hf hwrites' hkj he hwrites hij
        exact not_open_after h hg hdecide hq hopen hdk
    | _ =>
      rw [hlabel] at hwrites'
      cases hwrites'
  | _ =>
    rw [hlabel] at hwrites'
    cases hwrites'

/-- Where nothing checked is overturned, the live rates stay inside the guardrail and every
proposal is decided once. -/
theorem guarded_of_unskewed (h : Calls Configures w cs w' es) (hw : w.Inside) (hskew : Unskewed es) : Guarded es := by
  constructor
  · intro i n e he
    exact inside_of_unskewed h hw hskew he
  · intro i n e p proposal he hfound hdecided
    exact verdict_of_unskewed h hskew he hfound hdecided
  · intro i j n m e f p he hwrites hf hwrites'
    have hij := not_written_again h hskew he hwrites hf hwrites'
    have hji := not_written_again h hskew hf hwrites' he hwrites
    omega

end Runs

/-! A rate and the guardrail, moved at the same time; a proposal that is made and applied. -/

def sampleRates : World := ⟨0, ⟨[], none, [⟨.A, 800⟩]⟩, none, [], fun _ ↦ none⟩

def sampleWindow : Guardrail := ⟨500, 900, by decide, by decide, by decide⟩

def sampleSkew : List (Request Unit) :=
  [updateCommission ⟨true, true, true⟩ [(.A, 1000)], updateGuardrail sampleWindow]

def sampleProposal : List (Request Unit) :=
  [createCommissionProposal .A 1000, applyCommissionProposal ⟨true, true, true⟩ 0]

def ratesRun (requests : List (Request Unit)) (turns : List ℕ) :
    List (Call Step World Refusal) × World × List (ℕ × Event Step World) :=
  takeTurns turns (requests.map fun p ↦ ⟨p, p⟩) sampleRates

theorem ratesRun_calls {requests : List (Request Unit)} (hrequests : ∀ p ∈ requests, Configures p) (turns : List ℕ) :
    Calls Configures sampleRates (ratesRun requests turns).1 (ratesRun requests turns).2.1
      (ratesRun requests turns).2.2 := by
  simpa [ratesRun] using (Calls.start.askAll hrequests).takeTurns turns

theorem sampleRates_inside : sampleRates.Inside := by
  unfold World.Inside
  decide

/-- The cap is lowered between the check of a rate and its transaction. -/
theorem rate_outside : ∃ cs w es, Calls Configures sampleRates cs w es ∧ sampleRates.Inside ∧ ¬Guarded es := by
  have hskew : ∀ p ∈ sampleSkew, Configures p := by
    simp only [sampleSkew, List.forall_mem_cons]
    exact ⟨.updateCommission _ _, .updateGuardrail _, by simp⟩
  refine ⟨_, _, _, ratesRun_calls hskew [0, 1, 1, 1, 0, 0, 0, 0], sampleRates_inside, fun hguarded ↦ ?_⟩
  have hinside := hguarded.inside 7 0 _ rfl ⟨.A, 1000⟩ (by decide)
  revert hinside
  decide

theorem sampleProposal_configures : ∀ p ∈ sampleProposal, Configures p := by
  simp only [sampleProposal, List.forall_mem_cons]
  exact ⟨.createCommissionProposal _ _, .applyCommissionProposal _ _, by simp⟩

def sampleTurns : List ℕ := [0, 0, 1, 1, 1, 1, 1, 1, 1, 1, 1, 1, 1, 1]

theorem sampleProposal_unskewed : Unskewed (ratesRun sampleProposal sampleTurns).2.2 := by
  have hcalm : ∀ x ∈ (ratesRun sampleProposal sampleTurns).2.2.zipIdx, x.1.2.label.upserts = none ∧
      (x.1.2.label.writesFor = some 0 ∨ x.1.2.label.writesFor = none) ∧
      (x.1.2.label.calm = false → x.2 = 7 ∧ x.1.2.label.writesFor ≠ none ∨ x.2 = 11 ∧ x.1.2.label.writesFor = none) := by
    decide +kernel
  have hat {i n : ℕ} {e : Event Step World} (he : Makes (ratesRun sampleProposal sampleTurns).2.2 i n e) :=
    hcalm ((n, e), i) (List.mem_zipIdx_iff_getElem?.mpr he)
  have hdecides {i n p : ℕ} {e : Event Step World} {status : ProposalStatus}
      (he : Makes (ratesRun sampleProposal sampleTurns).2.2 i n e) (hl : e.label = .decide p status) : i = 11 := by
    have hcalm := (hat he).2.2
    rw [hl] at hcalm
    rcases hcalm rfl with ⟨-, hwrites⟩ | ⟨hi, -⟩
    · exact absurd rfl hwrites
    · exact hi
  have hwrites {i n p : ℕ} {e : Event Step World} (he : Makes (ratesRun sampleProposal sampleTurns).2.2 i n e)
      (hl : e.label.writesFor = some p) : i = 7 := by
    have hcalm : e.label.calm = false := by
      cases hlabel : e.label with
      | write write =>
        cases write with
        | commission _ _ => rfl
        | _ =>
          rw [hlabel] at hl
          cases hl
      | _ =>
        rw [hlabel] at hl
        cases hl
    rcases (hat he).2.2 hcalm with ⟨hi, -⟩ | ⟨-, hnone⟩
    · exact hi
    · rw [hl] at hnone
      cases hnone
  constructor
  · intro k j c n m q f e bands proposal body hq hgets he hl hkj hjc hf hupsert
    have hnone := (hat hf).1
    rw [hupsert] at hnone
    cases hnone
  · intro k j c n m q f e body hq hgets he hl
    have hnone := (hat he).1
    rw [hl] at hnone
    cases hnone
  · intro k j c n m q f e p status status' hq hopen he hl hkj hjc hf hdecide
    have := hdecides he hl
    have := hdecides hf hdecide
    omega
  · intro i k c n m q f e p hq hopen he hl hkc hf hwrites' hic
    have := hwrites he hl
    have := hwrites hf hwrites'
    omega

theorem guarded_of_unskewed_sample : Guarded (ratesRun sampleProposal sampleTurns).2.2 :=
  guarded_of_unskewed (ratesRun_calls sampleProposal_configures sampleTurns) sampleRates_inside sampleProposal_unskewed

end Towing.Pricing
