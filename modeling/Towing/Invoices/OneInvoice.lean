import Towing.Invoices.InvoiceService
import Towing.Process.Permits

namespace Towing.Invoices

open Towing.Process InvoiceService

/-! ### What has been read before a step -/

def Recorded (bookingId key : ℕ) (w : World) : Prop :=
  ∃ row, w.bookings bookingId = some row ∧ row.invoiceKey = some key

/-- The key was found on the row, or put there. -/
def Knows (past : List (Event Step World)) (bookingId key : ℕ) : Prop :=
  (∃ e ∈ past, Recorded bookingId key e.before) ∨
    ∃ e ∈ past, e.label = .record bookingId key ∧ (e.before.bookings bookingId).any (·.invoiceKey.isNone) = true

def Justified (past : List (Event Step World)) : Step → Prop
  | .put bookingId data => ∃ e ∈ past, ∃ row, e.before.bookings bookingId = some row ∧ data = row.fare.invoice
  | .record bookingId key => ∃ e ∈ past, ∃ data, e.label = .put bookingId data ∧ e.before.documents.length = key
  | .serve bookingId key viewer => Knows past bookingId key ∧
      ∀ userId, viewer = .customer userId →
        ∃ e ∈ past, ∃ row, e.before.bookings bookingId = some row ∧ row.userId = userId ∧ row.paid = true
  | _ => True

variable {past : List (Event Step World)}

theorem heeds_find {α : Type} {bookingId : ℕ} {k : Booking → Request α}
    {Q : Except String α → List (Event Step World) → Prop} (herror : ∀ e, Q (.error "Booking not found") (past ++ [e]))
    (hk : ∀ row e, e.before.bookings bookingId = some row → (k row).Heeds Justified Q (past ++ [e])) :
    ((find bookingId).bind k).Heeds Justified Q past := by
  refine ⟨trivial, fun s ↦ ?_⟩
  dsimp only
  cases hrow : s.bookings bookingId with
  | none => exact herror _
  | some row => exact hk row _ hrow

/-- What a caller has read before it asks for the key is kept to the end. -/
theorem heeds_ensure (bookingId : ℕ) {P : List (Event Step World) → Prop} (hP : ∀ past e, P past → P (past ++ [e]))
    (h : P past) :
    (ensure bookingId).Heeds Justified (fun r past' ↦ P past' ∧ ∀ key, r = .ok key → Knows past' bookingId key)
      past := by
  apply heeds_find
  · exact fun e ↦ ⟨hP _ e h, fun key hok ↦ by cases hok⟩
  · intro existing e₀ hexisting
    cases hkey : existing.invoiceKey with
    | some key =>
      refine ⟨hP _ e₀ h, fun key' hok ↦ .inl ⟨e₀, List.mem_concat_self, existing, hexisting, ?_⟩⟩
      cases hok
      exact hkey
    | none =>
      apply heeds_find
      · exact fun e ↦ ⟨hP _ e (hP _ e₀ h), fun key hok ↦ by cases hok⟩
      · intro row e₁ hrow
        refine ⟨⟨e₁, List.mem_concat_self, row, hrow, rfl⟩, fun s ↦ ?_⟩
        refine ⟨⟨_, List.mem_concat_self, _, rfl, rfl⟩, fun s' ↦ ?_⟩
        have hpast := hP _ ⟨.record bookingId s.documents.length, s', s'.run (.record bookingId s.documents.length)⟩
          (hP _ ⟨.put bookingId row.fare.invoice, s, s.run (.put bookingId row.fare.invoice)⟩ (hP _ e₁ (hP _ e₀ h)))
        simp only [Proc.bind_ok]
        split_ifs with hupdated
        · refine ⟨hpast, fun key hok ↦ .inr ⟨_, List.mem_concat_self, ?_, hupdated⟩⟩
          cases hok
          rfl
        · apply heeds_find
          · exact fun e ↦ ⟨hP _ e hpast, fun key hok ↦ by cases hok⟩
          · intro row' e₂ hrow'
            cases hkey' : row'.invoiceKey with
            | none => exact ⟨hP _ e₂ hpast, fun key hok ↦ by cases hok⟩
            | some key =>
              refine ⟨hP _ e₂ hpast, fun key' hok ↦ .inl ⟨e₂, List.mem_concat_self, row', hrow', ?_⟩⟩
              cases hok
              exact hkey'

theorem heeds_serving (bookingId : ℕ) (viewer : Viewer)
    (h : ∀ userId, viewer = .customer userId →
      ∃ e ∈ past, ∃ row, e.before.bookings bookingId = some row ∧ row.userId = userId ∧ row.paid = true) :
    (serving bookingId viewer).Heeds Justified (fun _ _ ↦ True) past := by
  apply (heeds_ensure bookingId (P := fun past ↦ ∀ userId, viewer = .customer userId →
    ∃ e ∈ past, ∃ row, e.before.bookings bookingId = some row ∧ row.userId = userId ∧ row.paid = true) ?_ h).bind
  · rintro key past' ⟨hviewer, hknows⟩
    exact ⟨⟨hknows key rfl, hviewer⟩, fun _ ↦ trivial⟩
  · exact fun _ _ _ ↦ trivial
  · intro past e hpast userId hv
    obtain ⟨r, hr, hrow⟩ := hpast userId hv
    exact ⟨r, List.mem_append_left _ hr, hrow⟩

theorem asks_heeds {p : Request Unit} (h : Asks p) : p.Heeds Justified (fun _ _ ↦ True) [] := by
  cases h with
  | generate bookingId =>
    apply (heeds_ensure bookingId (P := fun _ ↦ True) (fun _ _ _ ↦ trivial) trivial).bind
    · exact fun _ _ _ ↦ trivial
    · exact fun _ _ _ ↦ trivial
  | bytes bookingId => exact heeds_serving bookingId .email fun _ h ↦ by cases h
  | link bookingId userId =>
    apply heeds_find (fun _ ↦ trivial)
    intro row e hrow
    split_ifs with hother hpaid
    · trivial
    · apply heeds_serving
      rintro userId' hv
      cases hv
      exact ⟨e, List.mem_concat_self, row, hrow, not_not.mp hother, hpaid⟩
    · trivial
  | adminLink bookingId =>
    apply heeds_find (fun _ ↦ trivial)
    intro row e hrow
    split_ifs
    · exact heeds_serving bookingId .admin fun _ h ↦ by cases h
    · trivial
  | book | reprice | setPaid => exact ⟨trivial, fun _ ↦ trivial⟩

/-! ### What a step leaves of a booking -/

variable {w : World} {bookingId key : ℕ}

theorem bookings_set (w : World) (i bookingId : ℕ) (f : Booking → Booking) :
    (w.set i f).bookings bookingId = if bookingId = i then (w.bookings bookingId).map f else w.bookings bookingId := by
  unfold World.set
  dsimp only
  rw [Function.update_apply]
  split_ifs with hi
  · rw [hi]
  · rfl

/-- A booking stays its customer's, and keeps the key of its invoice. -/
theorem row_kept {row : Booking} (h : w.bookings bookingId = some row) (l : Step) :
    ∃ row', (w.run l).bookings bookingId = some row' ∧ row'.userId = row.userId ∧
      (∀ key, row.invoiceKey = some key → row'.invoiceKey = some key) := by
  have hset (i : ℕ) (f : Booking → Booking) (huser : (f row).userId = row.userId)
      (hkey : ∀ key, row.invoiceKey = some key → (f row).invoiceKey = some key) :
      ∃ row', (w.set i f).bookings bookingId = some row' ∧ row'.userId = row.userId ∧
        (∀ key, row.invoiceKey = some key → row'.invoiceKey = some key) := by
    rw [bookings_set, h]
    split_ifs
    · exact ⟨f row, rfl, huser, hkey⟩
    · exact ⟨row, rfl, rfl, fun _ hkey ↦ hkey⟩
  cases l with
  | look | serve | put => exact ⟨row, h, rfl, fun _ hkey ↦ hkey⟩
  | record i key => exact hset i _ rfl fun key' hkey ↦ by simp [hkey]
  | reprice i fare | setPaid i paid => exact hset i _ rfl fun _ hkey ↦ hkey
  | book i userId fare =>
    refine ⟨row, ?_, rfl, fun _ hkey ↦ hkey⟩
    show Function.update w.bookings i _ bookingId = some row
    rw [Function.update_apply]
    split_ifs with hi
    · rw [← hi, h]
      rfl
    · exact h

theorem recorded_kept (h : Recorded bookingId key w) (l : Step) : Recorded bookingId key (w.run l) := by
  obtain ⟨row, hrow, hkey⟩ := h
  obtain ⟨row', hrow', -, hkeeps⟩ := row_kept hrow l
  exact ⟨row', hrow', hkeeps key hkey⟩

theorem recorded_unique {key' : ℕ} (h : Recorded bookingId key w) (h' : Recorded bookingId key' w) : key = key' := by
  obtain ⟨row, hrow, hkey⟩ := h
  obtain ⟨row', hrow', hkey'⟩ := h'
  obtain rfl := Option.some.inj (hrow.symm.trans hrow')
  exact Option.some.inj (hkey.symm.trans hkey')

theorem documents_run (w : World) (l : Step) : ∃ new, (w.run l).documents = w.documents ++ new ∧ new.length ≤ 1 ∧
    ∀ d ∈ new, l = .put d.1 d.2 := by
  cases l with
  | put bookingId data => exact ⟨[(bookingId, data)], rfl, le_rfl, by simp⟩
  | _ => exact ⟨[], (List.append_nil _).symm, Nat.zero_le _, by simp⟩

theorem document_kept {data : InvoiceData} (h : w.documents[key]? = some (bookingId, data)) (l : Step) :
    (w.run l).documents[key]? = some (bookingId, data) := by
  obtain ⟨new, hnew, -⟩ := documents_run w l
  rw [hnew, List.getElem?_append_left (List.getElem?_eq_some_iff.mp h).1]
  exact h

/-- A key that is new on a row has been recorded by this step. -/
theorem recorded_new {l : Step} (h : Recorded bookingId key (w.run l)) (hnew : ¬Recorded bookingId key w) :
    l = .record bookingId key := by
  obtain ⟨row, hrow, hkey⟩ := h
  have hset (i : ℕ) (f : Booking → Booking) (hf : ∀ b, (f b).invoiceKey = b.invoiceKey)
      (h : (w.set i f).bookings bookingId = some row) : False := by
    rw [bookings_set] at h
    split_ifs at h
    · obtain ⟨old, hold, rfl⟩ := Option.map_eq_some_iff.mp h
      exact hnew ⟨old, hold, (hf old) ▸ hkey⟩
    · exact hnew ⟨row, h, hkey⟩
  cases l with
  | look | serve | put => exact (hnew ⟨row, hrow, hkey⟩).elim
  | reprice i fare => exact (hset i (fun b ↦ { b with fare }) (fun _ ↦ rfl) hrow).elim
  | setPaid i paid => exact (hset i (fun b ↦ { b with paid }) (fun _ ↦ rfl) hrow).elim
  | record i k =>
    rw [World.run, bookings_set] at hrow
    split_ifs at hrow with hi
    · obtain ⟨old, hold, rfl⟩ := Option.map_eq_some_iff.mp hrow
      cases hold' : old.invoiceKey with
      | some k' =>
        simp only [hold', Option.some_or] at hkey
        exact (hnew ⟨old, hold, hold'.trans hkey⟩).elim
      | none =>
        simp only [hold', Option.none_or, Option.some.injEq] at hkey
        rw [hi, hkey]
    · exact (hnew ⟨row, hrow, hkey⟩).elim
  | book i userId fare =>
    replace hrow : Function.update w.bookings i _ bookingId = some row := hrow
    rw [Function.update_apply] at hrow
    split_ifs at hrow with hi
    · cases hold : w.bookings i with
      | none =>
        rw [hold] at hrow
        cases hrow
        cases hkey
      | some old =>
        rw [hold] at hrow
        cases hrow
        exact (hnew ⟨_, hi ▸ hold, hkey⟩).elim
    · exact (hnew ⟨row, hrow, hkey⟩).elim

/-! ### Over a run -/

/-- No invoice has been made yet. -/
def World.Uninvoiced (w : World) : Prop :=
  w.documents = [] ∧ ∀ bookingId row, w.bookings bookingId = some row → row.invoiceKey = none

/-- What an invoice shows is what the booking cost at one moment before. -/
def Priced (es : List (ℕ × Event Step World)) (i bookingId : ℕ) (data : InvoiceData) : Prop :=
  ∃ j m f row, j < i ∧ Makes es j m f ∧ f.before.bookings bookingId = some row ∧ data = row.fare.invoice

/-- Whoever asks, and however many documents are rendered, one is handed out for a booking: the one that
its row records, made from its fare, and to a customer only by a call that has read the trip as theirs and paid. -/
structure OneInvoice (es : List (ℕ × Event Step World)) : Prop where
  same : ∀ i j m n e f bookingId key key' viewer viewer', Makes es i m e → Makes es j n f →
    e.label = .serve bookingId key viewer → f.label = .serve bookingId key' viewer' → key = key'
  stored : ∀ i n e bookingId key viewer, Makes es i n e → e.label = .serve bookingId key viewer →
    Recorded bookingId key e.before ∧
      ∃ data, e.before.documents[key]? = some (bookingId, data) ∧ Priced es i bookingId data
  owned : ∀ i n e bookingId key userId, Makes es i n e → e.label = .serve bookingId key (.customer userId) →
    (∃ row, e.before.bookings bookingId = some row ∧ row.userId = userId) ∧
      ∃ f ∈ own n (es.take i), ∃ row, f.before.bookings bookingId = some row ∧ row.userId = userId ∧ row.paid = true

section Run

variable {w₀ : World} {cs : List (Call Step World String)} {es : List (ℕ × Event Step World)} {i j m n : ℕ}
  {e f : Event Step World} (hrun : Calls Asks w₀ cs w es)
include hrun

theorem justified_at (he : Makes es i n e) : Justified (own n (es.take i)) e.label :=
  hrun.heeds_own (fun _ hp ↦ asks_heeds hp) he

/-- What a step finds and every step keeps, a later one finds. -/
theorem kept_between {I : World → Prop} (hkeep : ∀ w l, I w → I (World.run w l)) (hij : i ≤ j) (he : Makes es i m e)
    (hf : Makes es j n f) (h : I e.before) : I f.before :=
  hrun.rel_later (R := fun s t ↦ I s → I t) (fun _ h ↦ h) (fun _ _ _ hst htu h ↦ htu (hst h)) (fun l w ↦ hkeep w l)
    hij he hf h

theorem kept_after_step {I : World → Prop} (hkeep : ∀ w l, I w → I (World.run w l)) (hij : i < j)
    (he : Makes es i m e) (hf : Makes es j n f) (h : I (e.before.run e.label)) : I f.before := by
  have hafter := hrun.rel_after (R := fun s t ↦ I s → I t) (fun _ h ↦ h) (fun _ _ _ hst htu h ↦ htu (hst h))
    (fun l w ↦ hkeep w l) hij he hf
  rw [hrun.commit_at he] at hafter
  exact hafter h

theorem recorded_of_knows (he : Makes es i n e) (h : Knows (own n (es.take i)) bookingId key) :
    Recorded bookingId key e.before := by
  rcases h with ⟨r, hr, hrecorded⟩ | ⟨r, hr, hl, hnone⟩
  · obtain ⟨j, hji, hr⟩ := makes_of_own hr
    exact kept_between hrun (fun _ l h ↦ recorded_kept h l) hji.le hr he hrecorded
  · obtain ⟨j, hji, hr⟩ := makes_of_own hr
    refine kept_after_step hrun (fun _ l h ↦ recorded_kept h l) hji hr he ?_
    rw [hl]
    cases hrow : r.before.bookings bookingId with
    | none => simp [hrow] at hnone
    | some row =>
      rw [hrow, Option.any_some, Option.isNone_iff_eq_none] at hnone
      refine ⟨{ row with invoiceKey := some key }, ?_, rfl⟩
      rw [World.run, bookings_set, if_pos rfl, hrow, Option.map_some, hnone]
      rfl

/-- A recorded key is that of an object in the booking's own folder. -/
theorem document_of_recorded (h₀ : w₀.Uninvoiced) (he : Makes es i n e) (h : Recorded bookingId key e.before) :
    ∃ data, e.before.documents[key]? = some (bookingId, data) := by
  obtain ⟨j, r, hji, hr, hnot, hafter, -⟩ := hrun.chained.origin (R := Recorded bookingId key)
    (fun ⟨row, hrow, hkey⟩ ↦ by rw [h₀.2 bookingId row hrow] at hkey; cases hkey) he.event h
  obtain ⟨m, hr⟩ := makes_of_event hr
  rw [hrun.commit_at hr] at hafter
  have hlabel := recorded_new hafter hnot
  have hjustified := justified_at hrun hr
  rw [hlabel] at hjustified
  obtain ⟨p, hp, data, hput, rfl⟩ := hjustified
  obtain ⟨k, hkj, hp⟩ := makes_of_own hp
  refine ⟨data, kept_after_step hrun (I := fun w ↦ w.documents[p.before.documents.length]? = some (bookingId, data))
    (fun _ l h ↦ document_kept h l) (hkj.trans hji) hp he ?_⟩
  rw [hput]
  exact List.getElem?_concat_length ..

theorem priced_of_document (h₀ : w₀.Uninvoiced) (he : Makes es i n e) {data : InvoiceData}
    (h : e.before.documents[key]? = some (bookingId, data)) : Priced es i bookingId data := by
  obtain ⟨j, r, hji, hr, hnot, hafter, -⟩ := hrun.chained.origin
    (R := fun w ↦ w.documents[key]? = some (bookingId, data)) (by simp [h₀.1]) he.event h
  obtain ⟨m, hr⟩ := makes_of_event hr
  rw [hrun.commit_at hr] at hafter
  obtain ⟨new, hnew, -, hput⟩ := documents_run r.before r.label
  have hmem : (bookingId, data) ∈ new := by
    replace hafter : (r.before.run r.label).documents[key]? = some (bookingId, data) := hafter
    rw [hnew] at hafter
    rcases List.mem_append.mp (List.mem_of_getElem? hafter) with hold | hmem
    · rcases Nat.lt_or_ge key r.before.documents.length with hlt | hge
      · rw [List.getElem?_append_left hlt] at hafter
        exact absurd hafter hnot
      · rw [List.getElem?_append_right hge] at hafter
        exact List.mem_of_getElem? hafter
    · exact hmem
  have hjustified := justified_at hrun hr
  rw [hput _ hmem] at hjustified
  obtain ⟨s, hs, row, hrow, hdata⟩ := hjustified
  obtain ⟨k, hkj, hs⟩ := makes_of_own hs
  exact ⟨k, m, s, row, hkj.trans hji, hs, hrow, hdata⟩

end Run

theorem one_invoice {w₀ : World} {cs : List (Call Step World String)} {es : List (ℕ × Event Step World)}
    (h₀ : w₀.Uninvoiced) (hrun : Calls Asks w₀ cs w es) : OneInvoice es := by
  have hserve {i n : ℕ} {e : Event Step World} {bookingId key : ℕ} {viewer : Viewer} (he : Makes es i n e)
      (hl : e.label = .serve bookingId key viewer) : Recorded bookingId key e.before := by
    have hjustified := justified_at hrun he
    rw [hl] at hjustified
    exact recorded_of_knows hrun he hjustified.1
  refine ⟨fun i j m n e f bookingId key key' viewer viewer' he hf hl hl' ↦ ?_,
    fun i n e bookingId key viewer he hl ↦ ?_, fun i n e bookingId key userId he hl ↦ ?_⟩
  · have hkept {i j m n : ℕ} {e f : Event Step World} {key : ℕ} (hij : i ≤ j) (he : Makes es i m e)
        (hf : Makes es j n f) (h : Recorded bookingId key e.before) : Recorded bookingId key f.before :=
      kept_between hrun (fun _ l h ↦ recorded_kept h l) hij he hf h
    rcases Nat.le_total i j with hij | hji
    · exact recorded_unique (hkept hij he hf (hserve he hl)) (hserve hf hl')
    · exact recorded_unique (hserve he hl) (hkept hji hf he (hserve hf hl'))
  · obtain ⟨data, hdata⟩ := document_of_recorded hrun h₀ he (hserve he hl)
    exact ⟨hserve he hl, data, hdata, priced_of_document hrun h₀ he hdata⟩
  · have hjustified := justified_at hrun he
    rw [hl] at hjustified
    obtain ⟨r, hown, row, hrow, huser, hpaid⟩ := hjustified.2 userId rfl
    obtain ⟨j, hji, hr⟩ := makes_of_own hown
    refine ⟨?_, r, hown, row, hrow, huser, hpaid⟩
    refine kept_between hrun (I := fun w ↦ ∃ row, w.bookings bookingId = some row ∧ row.userId = userId) ?_ hji.le hr he
      ⟨row, hrow, huser⟩
    rintro w l ⟨row, hrow, huser⟩
    obtain ⟨row', hrow', huser', -⟩ := row_kept hrow l
    exact ⟨row', hrow', huser'.trans huser⟩

/-! ### A worker, the customer and an email at once -/

def sampleFare : Fare := ⟨50_000, 12_500, 0, 0, 0, 0, 0, 2_500, 10_800, 70_800⟩

def sampleAsked : List (Request Unit) :=
  [Proc.write (.book 3 7 sampleFare), Proc.write (.setPaid 3 true), (ensure 3).ignore, link 3 7, bytes 3]

theorem sampleAsked_asks : ∀ p ∈ sampleAsked, Asks p := by
  simp only [sampleAsked, List.forall_mem_cons, List.not_mem_nil, false_imp_iff, implies_true, and_true]
  exact ⟨.book _ _ _, .setPaid _ _, .generate _, .link _ _, .bytes _⟩

def World.blank : World := ⟨fun _ ↦ none, []⟩

def invoiceRun (asked : List (Request Unit)) (turns : List ℕ) :
    List (Call Step World String) × World × List (ℕ × Event Step World) :=
  takeTurns turns (asked.map fun p ↦ ⟨p, p⟩) .blank

theorem invoiceRun_calls {asked : List (Request Unit)} (hasked : ∀ p ∈ asked, Asks p) (turns : List ℕ) :
    Calls Asks .blank (invoiceRun asked turns).1 (invoiceRun asked turns).2.1 (invoiceRun asked turns).2.2 := by
  simpa [invoiceRun] using (Calls.start.askAll hasked).takeTurns turns

def sampleTurns : List ℕ := [0, 1] ++ (List.replicate 8 [2, 3, 4]).flatten

/-- Three documents are rendered, and the first one recorded is handed out to both. -/
theorem one_invoice_sample :
    (invoiceRun sampleAsked sampleTurns).2.1.documents.length = 3 ∧
      (invoiceRun sampleAsked sampleTurns).2.2.countP (fun x ↦ x.2.label matches .serve 3 0 _) = 2 ∧
      OneInvoice (invoiceRun sampleAsked sampleTurns).2.2 :=
  ⟨by decide, by decide, one_invoice ⟨rfl, fun _ _ h ↦ by cases h⟩ (invoiceRun_calls sampleAsked_asks _)⟩

end Towing.Invoices
