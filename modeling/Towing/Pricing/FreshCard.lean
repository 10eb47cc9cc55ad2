import Towing.Pricing.AdminConfigService

namespace Towing.Pricing

open Towing.Process PricingConfigRepo

namespace Step

def gets : Step → Bool
  | .redisGet _ _ => true
  | _ => false

/-- Nothing has to be known of what came before the step. -/
def quiet : Step → Bool
  | .redisSet _ _ _ _ | .loaded _ | .returned => false
  | _ => true

/-- The step writes to the tables of the rate card. -/
def writes : Step → Bool
  | .write _ => true
  | _ => false

def busts : Step → Bool
  | .redisDel _ _ => true
  | _ => false

end Step

/-- The selections agree on the table. -/
def Rates.Same (table : Table) (r r' : Rates) : Prop :=
  match table with
  | .rules => r.rules = r'.rules
  | .charges => r.charges = r'.charges
  | .commission => r.commission = r'.commission

/-- Since its look into the cache, the request has only done what `P` says. -/
def SinceGet (past : List (Event Step World)) (P : Event Step World → List (Event Step World) → Prop) : Prop :=
  ∃ (pre : List (Event Step World)) (g : Event Step World) (mid : List (Event Step World)),
    past = pre ++ g :: mid ∧ g.label.gets = true ∧ (∀ q ∈ mid, q.label.gets = false) ∧ P g mid

/-- The card is made of what the queries have seen since. -/
def Assembled (past : List (Event Step World)) (card : RateCard) : Prop :=
  SinceGet past fun _ mid ↦ ∃ selected, card = assemble selected ∧
    ∀ table, ∃ q ∈ mid, q.label = .select table ∧ selected.Same table (seen q.before)

/-- The card is the one that was found. -/
def Hit (past : List (Event Step World)) (card : RateCard) : Prop :=
  SinceGet past fun g _ ↦ g.before.entry RATE_CARD_CACHE_KEY = some card

/-- What was written has been followed by a bust. -/
def Settled (past : List (Event Step World)) : Prop :=
  ∀ (pre : List (Event Step World)) (q : Event Step World) (mid : List (Event Step World)),
    past = pre ++ q :: mid → q.label.writes = true →
    ∃ d ∈ mid, ∃ reachable, d.label = .redisDel RATE_CARD_CACHE_KEY reachable

/-- What a request has done before each of its steps. -/
inductive Justified (past : List (Event Step World)) : Step → Prop
  | quiet {l : Step} : l.quiet = true → Justified past l
  | fill {card : RateCard} {ttlSeconds : ℕ} {reachable : Bool} : Assembled past card →
      Justified past (.redisSet RATE_CARD_CACHE_KEY card ttlSeconds reachable)
  | hit {card : RateCard} : Hit past card → Justified past (.loaded card)
  | miss {card : RateCard} : Assembled past card → Justified past (.loaded card)
  | returned : Settled past → Justified past .returned

variable {past : List (Event Step World)} {card : RateCard} {α : Type}

/-- The step as it is committed. -/
def configured (l : Step) (w : World) : Event Step World := ⟨l, w, w.run l⟩

theorem SinceGet.concat {P Q : Event Step World → List (Event Step World) → Prop} {e : Event Step World}
    (h : SinceGet past P) (he : e.label.gets = false) (hPQ : ∀ g mid, P g mid → Q g (mid ++ [e])) :
    SinceGet (past ++ [e]) Q := by
  obtain ⟨pre, g, mid, rfl, hg, hmid, hP⟩ := h
  exact ⟨pre, g, mid ++ [e], by simp, hg, forall_mem_concat hmid he, hPQ g mid hP⟩

theorem Assembled.concat {e : Event Step World} (h : Assembled past card) (he : e.label.gets = false) :
    Assembled (past ++ [e]) card := by
  refine SinceGet.concat h he fun g mid hmid ↦ ?_
  obtain ⟨selected, hcard, htables⟩ := hmid
  refine ⟨selected, hcard, fun table ↦ ?_⟩
  obtain ⟨q, hq, hsees⟩ := htables table
  exact ⟨q, List.mem_append_left _ hq, hsees⟩

theorem settled_of_no_write (h : ∀ q ∈ past, q.label.writes = false) : Settled past := by
  intro pre q mid heq hwrites
  rw [h q (heq ▸ List.mem_append_right pre List.mem_cons_self)] at hwrites
  cases hwrites

theorem settled_bust (past : List (Event Step World)) {e : Event Step World} {reachable : Bool}
    (he : e.label = .redisDel RATE_CARD_CACHE_KEY reachable) : Settled (past ++ [e]) := by
  intro pre q mid heq hwrites
  rcases List.eq_nil_or_concat mid with rfl | ⟨mid, d, rfl⟩
  · obtain ⟨-, hlast⟩ := List.append_inj' heq rfl
    obtain rfl := (List.cons.inj hlast).1
    rw [he] at hwrites
    cases hwrites
  · rw [List.concat_eq_append, ← List.cons_append, ← List.append_assoc] at heq
    obtain ⟨-, hlast⟩ := List.append_inj' heq rfl
    obtain rfl := (List.cons.inj hlast).1
    exact ⟨e, by simp, reachable, he⟩

theorem Settled.concat {e : Event Step World} (h : Settled past) (he : e.label.writes = false) :
    Settled (past ++ [e]) := by
  intro pre q mid heq hwrites
  rcases List.eq_nil_or_concat mid with rfl | ⟨mid, d, rfl⟩
  · obtain ⟨-, hlast⟩ := List.append_inj' heq rfl
    obtain rfl := (List.cons.inj hlast).1
    rw [he] at hwrites
    cases hwrites
  · rw [List.concat_eq_append, ← List.cons_append, ← List.append_assoc] at heq
    obtain ⟨hpast, -⟩ := List.append_inj' heq rfl
    obtain ⟨d', hd', hbust⟩ := h pre q mid hpast hwrites
    exact ⟨d', by simp [hd'], hbust⟩

theorem Settled.append {mid : List (Event Step World)} (h : Settled past) (hmid : ∀ q ∈ mid, q.label.writes = false) :
    Settled (past ++ mid) := by
  induction mid using List.reverseRecOn with
  | nil => simpa using h
  | append_singleton mid q ih =>
    obtain ⟨hmid, hq⟩ := List.forall_mem_append.mp hmid
    rw [← List.append_assoc]
    exact (ih hmid).concat (hq q List.mem_cons_self)

theorem take_same (w : World) (selected : Rates) (table : Table) : (take w selected table).Same table (seen w) := by
  cases table <;> rfl

theorem take_other (w : World) (selected : Rates) {table other : Table} (h : other ≠ table) :
    (take w selected other).Same table selected := by
  cases table <;> cases other <;> first | rfl | exact absurd rfl h

theorem Rates.Same.trans {table : Table} {r r' r'' : Rates} (h : r.Same table r') (h' : r'.Same table r'') :
    r.Same table r'' := by
  cases table <;> exact Eq.trans h h'

/-- The queries bring what each has seen. -/
theorem justified_select (tables : List Table) (selected : Rates) :
    (PricingConfigRepo.select tables selected).Heeds Justified
      (fun answer past' ↦ ∃ final mid, answer = .ok final ∧ past' = past ++ mid ∧
        (∀ q ∈ mid, ∃ table, q.label = .select table) ∧
        (∀ table ∈ tables, ∃ q ∈ mid, q.label = .select table ∧ final.Same table (seen q.before)) ∧
        ∀ table ∉ tables, final.Same table selected) past := by
  induction tables generalizing selected past with
  | nil =>
    refine ⟨selected, [], rfl, by simp, by simp, by simp, fun table _ ↦ ?_⟩
    cases table <;> rfl
  | cons head tables ih =>
    refine ⟨.quiet rfl, fun s ↦ (ih (take s selected head)).mono (fun _ _ h ↦ h) fun answer past' h ↦ ?_⟩
    obtain ⟨final, mid, rfl, rfl, hmid, hin, hout⟩ := h
    refine ⟨final, configured (.select head) s :: mid, rfl, by simp [configured]; rfl,
      List.forall_mem_cons.mpr ⟨⟨head, rfl⟩, hmid⟩, fun table htable ↦ ?_, fun table htable ↦ ?_⟩
    · by_cases htail : table ∈ tables
      · obtain ⟨q, hq, hsees⟩ := hin table htail
        exact ⟨q, List.mem_cons_of_mem _ hq, hsees⟩
      · obtain rfl : table = head := by simpa [htail] using htable
        exact ⟨_, List.mem_cons_self, rfl, (hout table htail).trans (take_same s selected table)⟩
    · obtain ⟨hne, htail⟩ := List.ne_and_not_mem_of_not_mem_cons htable
      exact (hout table htail).trans (take_other s selected (Ne.symm hne))

/-- What a load has done when it answers, in addition to what was done before it. -/
def Loads (past : List (Event Step World)) (card : RateCard) (past' : List (Event Step World)) : Prop :=
  (Hit past' card ∨ Assembled past' card) ∧ ∃ mid, past' = past ++ mid ∧ ∀ q ∈ mid, q.label.writes = false

theorem justified_getOrSet (redis : Redis) {order : List Table} (horder : Queries order) :
    (CacheService.getOrSet redis RATE_CARD_CACHE_KEY RATE_CARD_TTL_SECONDS (PricingConfigRepo.read order)).Heeds Justified
      (fun answer past' ↦ ∃ card, answer = .ok card ∧ Loads past card past') past := by
  refine ⟨.quiet rfl, fun s ↦ ?_⟩
  simp only [Proc.bind_ok]
  let g := configured (.redisGet RATE_CARD_CACHE_KEY redis.reads) s
  split
  · rename_i card hfound
    split_ifs at hfound
    exact ⟨card, rfl, .inl ⟨past, g, [], rfl, rfl, by simp, hfound⟩, [g], rfl, by simp [g, configured, Step.writes]⟩
  · refine Proc.Heeds.bind (Q := fun answer past' ↦ ∃ final mid, answer = .ok (assemble final) ∧
        past' = past ++ [g] ++ mid ∧ (∀ q ∈ mid, ∃ table, q.label = .select table) ∧
        ∀ table, ∃ q ∈ mid, q.label = .select table ∧ final.Same table (seen q.before)) ?_ (fun card past' h ↦ ?_) ?_
    · refine (justified_select order _).bind (fun final past' h ↦ ?_) fun e past' h ↦ ?_
      · obtain ⟨final', mid, heq, rfl, hmid, hin, -⟩ := h
        cases heq
        refine ⟨final, mid, rfl, rfl, hmid, fun table ↦ hin table (horder.mem_iff.mpr ?_)⟩
        cases table <;> simp
      · obtain ⟨_, _, heq, -⟩ := h
        cases heq
    · obtain ⟨final, mid, heq, rfl, hmid, htables⟩ := h
      cases heq
      have hselects : ∀ q ∈ mid, q.label.gets = false ∧ q.label.writes = false := by
        intro q hq
        obtain ⟨table, hl⟩ := hmid q hq
        rw [hl]
        exact ⟨rfl, rfl⟩
      have hassembled : Assembled (past ++ [g] ++ mid) (assemble final) :=
        ⟨past, g, mid, by simp, rfl, fun q hq ↦ (hselects q hq).1, final, rfl, htables⟩
      refine ⟨.fill hassembled, fun s' ↦ ⟨_, rfl, .inr (hassembled.concat rfl), g :: mid ++ [_], by simp; rfl, ?_⟩⟩
      exact forall_mem_concat (List.forall_mem_cons.mpr ⟨rfl, fun q hq ↦ (hselects q hq).2⟩) rfl
    · intro e past' h
      obtain ⟨_, _, heq, -⟩ := h
      cases heq

theorem Loads.justified {past' : List (Event Step World)} (h : Loads past card past') :
    Justified past' (.loaded card) := by
  obtain ⟨hhit | hassembled, -⟩ := h
  · exact .hit hhit
  · exact .miss hassembled

theorem justified_load (redis : Redis) {order : List Table} (horder : Queries order) :
    (PricingConfigRepo.load redis order).Heeds Justified
      (fun answer past' ↦ (∃ card, answer = .ok card) ∧ ∃ mid, past' = past ++ mid ∧ ∀ q ∈ mid, q.label.writes = false)
      past := by
  refine (justified_getOrSet redis horder).bind (fun card past' h ↦ ?_) fun e past' h ↦ ?_
  · obtain ⟨card', heq, hloads⟩ := h
    cases heq
    obtain ⟨mid, rfl, hmid⟩ := hloads.2
    exact ⟨hloads.justified, fun s ↦ ⟨⟨_, rfl⟩, mid ++ [_], by simp; rfl, forall_mem_concat hmid rfl⟩⟩
  · obtain ⟨_, heq, -⟩ := h
    cases heq

/-- Quiet steps before the rest. -/
theorem quiet_then {β : Type} {p : Request α} {f : α → Request β}
    {Q : Except Refusal β → List (Event Step World) → Prop} (hp : p.Only fun l ↦ l.quiet = true)
    (hf : ∀ a past', (f a).Heeds Justified Q past') (herror : ∀ e past', Q (.error e) past') :
    (p.bind f).Heeds Justified Q past := by
  have hquiet : p.Heeds Justified (fun _ _ ↦ True) past :=
    Proc.Heeds.of_only (R := fun _ ↦ True) hp (fun _ _ _ hl ↦ .quiet hl) (fun _ _ _ ↦ trivial) trivial
  exact hquiet.bind (fun a past' _ ↦ hf a past') fun e past' _ ↦ herror e past'

theorem justified_settle (redis : Redis) :
    ((PricingConfigRepo.invalidate redis).bind fun _ ↦ AdminConfigService.returned).Heeds Justified
      (fun _ _ ↦ True) past :=
  ⟨.quiet rfl, fun _ ↦ ⟨.returned (settled_bust past rfl), fun _ ↦ trivial⟩⟩

theorem quiet_getPricing : AdminConfigService.getPricing.Only fun l ↦ l.quiet = true := by
  refine ⟨rfl, fun s ↦ ?_⟩
  simp only [Proc.bind_ok]
  split_ifs
  · trivial
  · exact ⟨rfl, fun _ ↦ trivial⟩

theorem quiet_transact (write : RateWrite) (refusal : Refusal) :
    (AdminConfigService.transact write refusal).Only fun l ↦ l.quiet = true := ⟨rfl, fun _ ↦ trivial⟩

theorem quiet_audit : AdminConfigService.audit.Only fun l ↦ l.quiet = true := ⟨rfl, fun _ ↦ trivial⟩

theorem quiet_getCommission : AdminConfigService.getCommission.Only fun l ↦ l.quiet = true :=
  ⟨rfl, fun _ ↦ ⟨rfl, fun _ ↦ trivial⟩⟩

theorem quiet_openProposal (proposalId : ℕ) :
    (AdminConfigService.openProposal proposalId).Only fun l ↦ l.quiet = true := ⟨rfl, fun _ ↦ trivial⟩

theorem justified_writeCommission (redis : Redis) (bands : List (Money.Band × Money.Pct)) (proposal : Option ℕ) :
    (AdminConfigService.writeCommission redis bands proposal).Heeds Justified
      (fun answer past' ↦ answer = .ok () → Settled past') past := by
  refine ⟨.quiet rfl, fun s ↦ ?_⟩
  simp only [Proc.bind_ok]
  split_ifs
  · refine quiet_then quiet_getCommission (fun _ _ ↦ ?_) (fun _ _ h ↦ by cases h)
    exact quiet_then quiet_audit (fun _ _ h ↦ by cases h) (fun _ _ h ↦ by cases h)
  · refine quiet_then quiet_getCommission (fun _ _ ↦ ?_) (fun _ _ h ↦ by cases h)
    refine quiet_then quiet_audit (fun _ _ ↦ ?_) (fun _ _ h ↦ by cases h)
    refine quiet_then (quiet_transact _ _) (fun _ past' ↦ ⟨.quiet rfl, fun s' ↦ ?_⟩) (fun _ _ h ↦ by cases h)
    have hsettled : Settled (past' ++ [configured (.redisDel RATE_CARD_CACHE_KEY redis.busts) s']) := settled_bust _ rfl
    exact ⟨.quiet rfl, fun _ ↦ ⟨.quiet rfl, fun _ _ ↦ (hsettled.concat rfl).concat rfl⟩⟩

theorem configures_justified {p : Request Unit} (h : Configures p) : p.Heeds Justified (fun _ _ ↦ True) [] := by
  cases h with
  | load redis order horder => exact (justified_load redis horder).bind (fun _ _ _ ↦ trivial) fun _ _ _ ↦ trivial
  | updatePricing redis charges rules =>
    refine quiet_then quiet_getPricing (fun _ _ ↦ ?_) (fun _ _ ↦ trivial)
    refine quiet_then (quiet_transact _ _) (fun _ _ ↦ ?_) (fun _ _ ↦ trivial)
    refine quiet_then quiet_getPricing (fun _ _ ↦ ?_) (fun _ _ ↦ trivial)
    exact quiet_then quiet_audit (fun _ _ ↦ justified_settle redis) (fun _ _ ↦ trivial)
  | createPricingRule redis row =>
    refine quiet_then (quiet_transact _ _) (fun _ _ ↦ ?_) (fun _ _ ↦ trivial)
    exact quiet_then quiet_audit (fun _ _ ↦ justified_settle redis) (fun _ _ ↦ trivial)
  | deactivatePricingRule redis ruleId =>
    refine ⟨.quiet rfl, fun s ↦ ?_⟩
    simp only [Proc.bind_ok]
    split
    · trivial
    · split_ifs
      · exact ⟨.returned (settled_of_no_write (by simp [Step.writes])), fun _ ↦ trivial⟩
      · refine quiet_then (quiet_transact _ _) (fun _ _ ↦ ?_) (fun _ _ ↦ trivial)
        exact quiet_then quiet_audit (fun _ _ ↦ justified_settle redis) (fun _ _ ↦ trivial)
  | updateCommission redis bands =>
    refine (justified_writeCommission redis bands none).bind (fun _ past' h ↦ ?_) fun _ _ _ ↦ trivial
    exact ⟨.returned (h rfl), fun _ ↦ trivial⟩
  | updateGuardrail body =>
    refine ⟨.quiet rfl, fun s ↦ ⟨.quiet rfl, fun s' ↦ ?_⟩⟩
    simp only [Proc.bind_ok]
    split_ifs
    · exact ⟨.quiet rfl, fun _ ↦ trivial⟩
    · refine ⟨.quiet rfl, fun _ ↦ ⟨.quiet rfl, fun _ ↦ ⟨.quiet rfl, fun _ ↦ ⟨.quiet rfl, fun _ ↦ ?_⟩⟩⟩⟩
      exact ⟨.returned (settled_of_no_write (by simp [Step.writes])), fun _ ↦ trivial⟩
  | createCommissionProposal band pct =>
    exact quiet_then ⟨rfl, fun _ ↦ trivial⟩ (fun _ _ ↦ ⟨.quiet rfl, fun _ ↦ trivial⟩) (fun _ _ ↦ trivial)
  | applyCommissionProposal redis proposalId =>
    refine quiet_then (quiet_openProposal proposalId) (fun proposal _ ↦ ?_) (fun _ _ ↦ trivial)
    refine (justified_writeCommission redis _ _).bind (fun _ past' h ↦ ?_) fun _ _ _ ↦ trivial
    refine ⟨.quiet rfl, fun _ ↦ ⟨.quiet rfl, fun _ ↦ ⟨.returned ?_, fun _ ↦ trivial⟩⟩⟩
    exact ((h rfl).concat rfl).concat rfl
  | declineCommissionProposal proposalId =>
    refine quiet_then (quiet_openProposal proposalId) (fun _ _ ↦ ?_) (fun _ _ ↦ trivial)
    exact ⟨.quiet rfl, fun _ ↦ ⟨.quiet rfl, fun _ ↦ trivial⟩⟩
  | updateConfig redis before after patch hbefore hafter =>
    refine (justified_load redis hbefore).bind (fun _ past' _ ↦ ?_) fun _ _ _ ↦ trivial
    split_ifs
    · trivial
    · refine quiet_then (quiet_transact _ _) (fun _ _ ↦ ?_) (fun _ _ ↦ trivial)
      refine quiet_then (quiet_transact _ _) (fun _ past' ↦ ⟨.quiet rfl, fun s ↦ ?_⟩) (fun _ _ ↦ trivial)
      have hsettled : Settled (past' ++ [configured (.redisDel RATE_CARD_CACHE_KEY redis.busts) s]) := settled_bust _ rfl
      refine (justified_load redis hafter).bind (fun _ rest h ↦ ?_) fun _ _ _ ↦ trivial
      obtain ⟨-, mid, rfl, hmid⟩ := h
      exact ⟨.quiet rfl, fun _ ↦ ⟨.returned ((hsettled.append hmid).concat rfl), fun _ ↦ trivial⟩⟩
  | tick ms => exact ⟨.quiet rfl, fun _ ↦ trivial⟩

variable {w w' : World} {cs : List (Call Step World Refusal)} {es : List (ℕ × Event Step World)} {c d γ i j k l m n r : ℕ}
  {e f g : Event Step World}

theorem justified_of_makes (h : Calls Configures w cs w' es) (he : Makes es i n e) :
    Justified (own n (es.take i)) e.label := h.heeds_own (fun _ hp ↦ configures_justified hp) he

/-- Request `m` looked into the cache at commit `γ`, and not again before `l`. -/
structure LoadsAt (es : List (ℕ × Event Step World)) (γ l m : ℕ) : Prop where
  gets : ∃ g, Makes es γ m g ∧ g.label.gets = true
  earlier : γ < l
  last : ∀ k e, γ < k → k < l → Makes es k m e → e.label.gets = false

theorem LoadsAt.unique {γ' : ℕ} (h : LoadsAt es γ l m) (h' : LoadsAt es γ' l m) : γ = γ' := by
  obtain ⟨g, hg, hgets⟩ := h.gets
  obtain ⟨g', hg', hgets'⟩ := h'.gets
  rcases Nat.lt_trichotomy γ γ' with hlt | heq | hlt
  · rw [h.last γ' g' hlt h'.earlier hg'] at hgets'
    cases hgets'
  · exact heq
  · rw [h'.last γ g hlt h.earlier hg] at hgets
    cases hgets

/-- What a request has done since its look into the cache, by the places in the run. -/
theorem loadsAt_of_sinceGet {P : Event Step World → List (Event Step World) → Prop}
    (h : SinceGet (own m (es.take l)) P) :
    ∃ γ g mid, Makes es γ m g ∧ LoadsAt es γ l m ∧ P g mid ∧ ∀ q ∈ mid, ∃ k, γ < k ∧ k < l ∧ Makes es k m q := by
  obtain ⟨past, g, mid, hown, hgets, hmid, hP⟩ := h
  obtain ⟨pre, post, htake, hpost⟩ := own_split hown
  have hg : Makes (es.take l) pre.length m g := by
    unfold Makes
    simp [htake]
  have hlater {k : ℕ} {q : Event Step World} (hk : Makes (es.take l) k m q) (hlt : pre.length < k) : q ∈ mid := by
    rw [← hpost]
    refine List.mem_map.mpr ⟨(m, q), List.mem_filter.mpr ⟨?_, by simp⟩, rfl⟩
    unfold Makes at hk
    rw [htake, List.getElem?_append_right (by omega), List.getElem?_cons,
      if_neg (by omega)] at hk
    exact List.mem_of_getElem? hk
  refine ⟨pre.length, g, mid, hg.of_take.2, ⟨⟨g, hg.of_take.2, hgets⟩, hg.of_take.1, fun k e hlt hkl hk ↦ ?_⟩, hP,
    fun q hq ↦ ?_⟩
  · exact hmid e (hlater (hk.take hkl) hlt)
  · rw [← hpost] at hq
    obtain ⟨before, after, rfl⟩ := of_mem_own hq
    have hk : Makes (es.take l) (pre.length + 1 + before.length) m q := by
      unfold Makes
      rw [htake, List.getElem?_append_right (by omega)]
      have : pre.length + 1 + before.length - pre.length = before.length + 1 := by omega
      simp [this]
    exact ⟨_, by omega, hk.of_take.1, hk.of_take.2⟩

/-- A call that has answered has busted the cache after what it wrote. -/
theorem busted_of_returned (h : Calls Configures w cs w' es) (he : Makes es c n e) (hwrites : e.label.writes = true)
    (hf : Makes es r n f) (hl : f.label = .returned) (hcr : c < r) :
    ∃ d b reachable, c < d ∧ d < r ∧ Makes es d n b ∧ b.label = .redisDel RATE_CARD_CACHE_KEY reachable := by
  have hjustified := justified_of_makes h hf
  rw [hl] at hjustified
  cases hjustified with
  | quiet hquiet => cases hquiet
  | returned hsettled =>
    have hsplit := (he.take hcr).split
    have hown : own n (es.take r) = own n ((es.take r).take c) ++ e :: own n ((es.take r).drop (c + 1)) := by
      conv_lhs => rw [hsplit]
      rw [own_append, ← List.singleton_append, own_append, own_self, List.singleton_append]
    obtain ⟨b, hb, reachable, hbust⟩ := hsettled _ _ _ hown hwrites
    obtain ⟨before, after, hdrop⟩ := of_mem_own hb
    have hb : Makes (es.take r) (c + 1 + before.length) n b := by
      have hget : ((es.take r).drop (c + 1))[before.length]? = some (n, b) := by simp [hdrop]
      rwa [List.getElem?_drop] at hget
    exact ⟨_, b, reachable, by omega, hb.of_take.1, hb.of_take.2, hbust⟩

/-- The card is made of what the tables held after commit `c`. -/
def Fresh (es : List (ℕ × Event Step World)) (c : ℕ) (card : RateCard) : Prop :=
  ∃ selected, card = assemble selected ∧
    ∀ table, ∃ i m e, c < i ∧ Makes es i m e ∧ selected.Same table (seen e.before)

/-- A load that begins after a call has answered is quoted from what the call wrote, or
from what was written since. -/
def SavedIsQuoted (es : List (ℕ × Event Step World)) : Prop :=
  ∀ c r γ l n m e f g card, Makes es c n e → e.label.writes = true → Makes es r n f → f.label = .returned → c < r →
    LoadsAt es γ l m → Makes es l m g → g.label = .loaded card → r < γ → Fresh (es.take l) c card

/-- No bust fails, and no fill comes after a bust with something that was queried before
what the bust is for was written. -/
structure BustsLast (es : List (ℕ × Event Step World)) : Prop where
  reaches : ∀ d n b key reachable, Makes es d n b → b.label = .redisDel key reachable → reachable = true
  fills : ∀ a c d γ f n m e b q x table key card ttlSeconds reachable, Makes es c n e → e.label.writes = true →
    Makes es d n b → b.label.busts = true → c < d → d < f → LoadsAt es γ f m → Makes es f m x →
    x.label = .redisSet key card ttlSeconds reachable → γ < a → a < f → Makes es a m q → q.label = .select table → c < a

/-- The tables are read after commit `c`, so the card is fresh. -/
theorem fresh_of_assembled {card : RateCard} {mid : List (Event Step World)}
    (h : ∃ selected, card = assemble selected ∧ ∀ table, ∃ q ∈ mid, q.label = .select table ∧
      selected.Same table (seen q.before))
    (hmid : ∀ q ∈ mid, ∀ table, q.label = .select table → ∃ k m, c < k ∧ k < l ∧ Makes es k m q) :
    Fresh (es.take l) c card := by
  obtain ⟨selected, hcard, htables⟩ := h
  refine ⟨selected, hcard, fun table ↦ ?_⟩
  obtain ⟨q, hq, hl, hsees⟩ := htables table
  obtain ⟨k, m, hck, hkl, hk⟩ := hmid q hq table hl
  exact ⟨k, m, q, hck, hk.take hkl, hsees⟩

theorem Fresh.mono {card : RateCard} (h : Fresh (es.take j) c card) (hjl : j ≤ l) : Fresh (es.take l) c card := by
  obtain ⟨selected, hcard, htables⟩ := h
  refine ⟨selected, hcard, fun table ↦ ?_⟩
  obtain ⟨i, m, e, hci, he, hsees⟩ := htables table
  obtain ⟨hij, he⟩ := he.of_take
  exact ⟨i, m, e, hci, he.take (by omega), hsees⟩

/-- Once the cache is busted for what was written, it holds nothing older. -/
theorem cached_fresh (h : Calls Configures w cs w' es) (hlast : BustsLast es) (he : Makes es c n e)
    (hwrites : e.label.writes = true) {b : Event Step World} {reachable : Bool} (hb : Makes es d n b)
    (hbust : b.label = .redisDel RATE_CARD_CACHE_KEY reachable) (hcd : c < d) (hg : Makes es γ m g) (hdγ : d < γ)
    {card : RateCard} (hentry : g.before.entry RATE_CARD_CACHE_KEY = some card) : Fresh (es.take γ) c card := by
  obtain ⟨cs', h'⟩ := h.before hg
  have hnone : b.after.cached RATE_CARD_CACHE_KEY = none := by
    obtain rfl := hlast.reaches d n b _ _ hb hbust
    rw [h.commit_at hb, hbust]
    change (World.run b.before (.redisDel RATE_CARD_CACHE_KEY true)).cached _ = none
    simp [World.run]
  obtain ⟨⟨card', expiry⟩, hfilter, rfl⟩ := Option.map_eq_some_iff.mp hentry
  have hcached := (Option.filter_eq_some_iff.mp hfilter).1
  refine (h'.kept_after (I := fun t ↦ ∀ x, t.cached RATE_CARD_CACHE_KEY = some x → Fresh (es.take γ) c x.1)
    (hb.take hdγ) (fun x hx ↦ ?_) fun f o x hdf hx hI y hy ↦ ?_).1 _ hcached
  · rw [hnone] at hx
    cases hx
  · obtain ⟨hfγ, hx⟩ := hx.of_take
    have hjustified := justified_of_makes h hx
    rw [h.commit_at hx] at hy
    cases hlabel : x.label with
    | redisSet key card ttlSeconds reached =>
      rw [hlabel] at hy hjustified
      cases hjustified with
      | quiet hquiet => cases hquiet
      | fill hassembled =>
        change (World.run x.before _).cached _ = some y at hy
        simp only [World.run] at hy
        split_ifs at hy with hreached
        · simp only [Function.update_self, Option.some.injEq] at hy
          subst hy
          obtain ⟨γ', g', mid, -, hloads, hmid, hplaces⟩ := loadsAt_of_sinceGet hassembled
          refine Fresh.mono (fresh_of_assembled hmid fun q hq table hl ↦ ?_) (Nat.le_of_lt hfγ)
          obtain ⟨k, hγk, hkf, hk⟩ := hplaces q hq
          have hbusts : b.label.busts = true := by
            rw [hbust]
            rfl
          exact ⟨k, o, hlast.fills k c d γ' f n o e b q x table _ _ _ _ he hwrites hb hbusts hcd hdf hloads hx hlabel
            hγk hkf hk hl, hkf, hk⟩
        · exact hI y hy
    | redisDel key reached =>
      rw [hlabel] at hy
      change (World.run x.before _).cached _ = some y at hy
      simp only [World.run] at hy
      split_ifs at hy
      · simp only [Function.update_apply] at hy
        split_ifs at hy
        exact hI y hy
      · exact hI y hy
    | insertProposal band pct =>
      rw [hlabel] at hy
      change (World.run x.before _).cached _ = some y at hy
      simp only [World.run] at hy
      split_ifs at hy <;> exact hI y hy
    | _ =>
      rw [hlabel] at hy
      exact hI y hy

/-- Where no stale fill outlives a bust, a saved rate card is the one quoted from. -/
theorem saved_is_quoted (h : Calls Configures w cs w' es) (hlast : BustsLast es) : SavedIsQuoted es := by
  intro c r γ l n m e f g card he hwrites hf hreturned hcr hloads hg hl hrγ
  obtain ⟨d, b, reachable, hcd, hdr, hb, hbust⟩ := busted_of_returned h he hwrites hf hreturned hcr
  have hjustified := justified_of_makes h hg
  rw [hl] at hjustified
  cases hjustified with
  | quiet hquiet => cases hquiet
  | hit hhit =>
    obtain ⟨γ', g', mid, hg', hloads', hentry, -⟩ := loadsAt_of_sinceGet hhit
    obtain rfl := hloads.unique hloads'
    exact (cached_fresh h hlast he hwrites hb hbust hcd hg' (by omega) hentry).mono (Nat.le_of_lt hloads.earlier)
  | miss hassembled =>
    obtain ⟨γ', g', mid, -, hloads', hmid, hplaces⟩ := loadsAt_of_sinceGet hassembled
    obtain rfl := hloads.unique hloads'
    refine fresh_of_assembled hmid fun q hq table _ ↦ ?_
    obtain ⟨k, hγk, hkl, hk⟩ := hplaces q hq
    exact ⟨k, m, by omega, hkl, hk⟩

/-! An edit of a roadside fare between two loads. -/

def sampleRule : RuleRow := ⟨0, .roadside, some .battery, none, none, 79900, none, true⟩

def sampleCharges : ChargeConfigValues := { DEFAULT_CHARGE_CONFIG with haversineRoadFactor := 1 }

def samplePrices : World := ⟨0, ⟨[sampleRule], some sampleCharges, []⟩, none, [], fun _ ↦ none⟩

def sampleEdit : RulePatch := ⟨0, some 89900, none, none⟩

def sampleConfigures : List (Request Unit) :=
  let order := [Table.rules, .charges, .commission]
  [(PricingConfigRepo.load ⟨true, true, true⟩ order).ignore,
    AdminConfigService.updatePricing ⟨true, true, true⟩ none [sampleEdit],
    (PricingConfigRepo.load ⟨true, true, true⟩ order).ignore]

theorem sampleConfigures_configures : ∀ p ∈ sampleConfigures, Configures p := by
  simp only [sampleConfigures, List.forall_mem_cons]
  exact ⟨.load _ _ (List.Perm.refl _), .updatePricing _ _ _, .load _ _ (List.Perm.refl _), by simp⟩

def priceRun (turns : List ℕ) : List (Call Step World Refusal) × World × List (ℕ × Event Step World) :=
  takeTurns turns (sampleConfigures.map fun p ↦ ⟨p, p⟩) samplePrices

theorem priceRun_calls (turns : List ℕ) :
    Calls Configures samplePrices (priceRun turns).1 (priceRun turns).2.1 (priceRun turns).2.2 := by
  simpa [priceRun] using (Calls.start.askAll sampleConfigures_configures).takeTurns turns

/-- The first load has selected, the edit is saved and its bust done, and then the first load
fills the cache. -/
def lateFill : List ℕ := [0, 0, 0, 0, 1, 1, 1, 1, 1, 1, 1, 1, 0, 0, 2, 2]

/-- The old card is filled in after the bust, and the next load is quoted from it. -/
theorem old_card_quoted : ∃ cs w es, Calls Configures samplePrices cs w es ∧ ¬SavedIsQuoted es := by
  refine ⟨_, _, _, priceRun_calls lateFill, fun hsaved ↦ ?_⟩
  have hedited : ∀ x ∈ (priceRun lateFill).2.2.drop 7, (toRuleSet (seen x.2.before).rules).roadside .battery = some 89900 := by
    decide +kernel
  have hloads : LoadsAt (priceRun lateFill).2.2 14 15 2 :=
    ⟨⟨_, rfl, rfl⟩, by omega, fun k e hlt hlt' ↦ by omega⟩
  obtain ⟨selected, hcard, htables⟩ := hsaved 6 11 14 15 1 2 _ _ _ _ rfl rfl rfl rfl (by omega) hloads rfl rfl (by omega)
  obtain ⟨i, m, e, hi, he, hsame⟩ := htables .rules
  have hold := congrArg (·.rules.roadside .battery) hcard
  have hnew := hedited (m, e) (List.mem_of_getElem? (i := i - 7) (by
    rw [List.getElem?_drop, Nat.add_sub_cancel' hi]
    exact he.of_take.2))
  change _ = (toRuleSet selected.rules).roadside .battery at hold
  change selected.rules = _ at hsame
  rw [hsame, hnew] at hold
  revert hold
  decide +kernel

def oneAfterAnother : List ℕ := [0, 0, 0, 0, 0, 0, 1, 1, 1, 1, 1, 1, 1, 1, 2, 2, 2, 2, 2, 2]

theorem oneAfterAnother_bustsLast : BustsLast (priceRun oneAfterAnother).2.2 := by
  have hbusts : ∀ x ∈ (priceRun oneAfterAnother).2.2.zipIdx, x.1.2.label.busts = true → x.2 = 12 := by decide +kernel
  have hgets : ∀ x ∈ (priceRun oneAfterAnother).2.2.zipIdx, x.1.2.label.gets = true → x.1.1 = 0 ∨ x.2 = 14 := by
    decide +kernel
  have hlater : ∀ x ∈ (priceRun oneAfterAnother).2.2.zipIdx, 12 < x.2 → x.1.1 ≠ 0 := by decide +kernel
  constructor
  · intro d n b key reachable hb hl
    obtain rfl := hbusts ((n, b), d) (List.mem_zipIdx_iff_getElem?.mpr hb) (by simp [hl, Step.busts])
    cases hb
    cases hl
    rfl
  · intro a c d γ f n m e b q x table key card ttlSeconds reachable _ _ hb hd hcd hdf hloads hx _ hγa _ _ _
    obtain rfl := hbusts ((n, b), d) (List.mem_zipIdx_iff_getElem?.mpr hb) hd
    obtain ⟨g, hg, hget⟩ := hloads.gets
    have hm := hlater ((m, x), f) (List.mem_zipIdx_iff_getElem?.mpr hx) hdf
    obtain hm' | rfl := hgets ((m, g), γ) (List.mem_zipIdx_iff_getElem?.mpr hg) hget
    · exact absurd hm' hm
    · omega

theorem saved_is_quoted_sample : SavedIsQuoted (priceRun oneAfterAnother).2.2 :=
  saved_is_quoted (priceRun_calls oneAfterAnother) oneAfterAnother_bustsLast

end Towing.Pricing
