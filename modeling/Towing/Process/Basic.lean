import Mathlib.Data.List.Basic

namespace Towing.Process

variable {ℓ σ ε α β γ : Type}

/-- What each kind of step writes, given everything its label names. -/
class Store (ℓ : Type) (σ : outParam Type) where
  commit : ℓ → σ → σ

/-- A request as the steps it commits. `next` sees the state a step finds. -/
inductive Proc (ℓ σ ε α : Type) where
  | done (r : Except ε α)
  | step (l : ℓ) (next : σ → Proc ℓ σ ε α)

/-- One committed step of a run, with the states around it. -/
structure Event (ℓ σ : Type) where
  label : ℓ
  before : σ
  after : σ

namespace Proc

def bind (p : Proc ℓ σ ε α) (f : α → Proc ℓ σ ε β) : Proc ℓ σ ε β :=
  match p with
  | .done (.ok a) => f a
  | .done (.error e) => .done (.error e)
  | .step l next => .step l fun s ↦ (next s).bind f

def handle (p : Proc ℓ σ ε α) (h : ε → Proc ℓ σ ε α) : Proc ℓ σ ε α :=
  match p with
  | .done (.ok a) => .done (.ok a)
  | .done (.error e) => h e
  | .step l next => .step l fun s ↦ (next s).handle h

/-- Whatever `p` answers, an error included, `k` goes on from it. -/
def follow (p : Proc ℓ σ ε α) (k : Except ε α → Proc ℓ σ ε β) : Proc ℓ σ ε β :=
  match p with
  | .done r => k r
  | .step l next => .step l fun s ↦ (next s).follow k

instance : Monad (Proc ℓ σ ε) where
  pure a := .done (.ok a)
  bind := bind

instance : MonadExceptOf ε (Proc ℓ σ ε) where
  throw e := .done (.error e)
  tryCatch := handle

/-- A single step, answering from the state it finds or refused by it. -/
def attempt (l : ℓ) (f : σ → Except ε α) : Proc ℓ σ ε α := .step l fun s ↦ .done (f s)

def query (l : ℓ) (f : σ → α) : Proc ℓ σ ε α := attempt l fun s ↦ .ok (f s)

def write (l : ℓ) : Proc ℓ σ ε Unit := attempt l fun _ ↦ .ok ()

def when (c : Prop) [Decidable c] (p : Proc ℓ σ ε Unit) : Proc ℓ σ ε Unit :=
  if c then p else .done (.ok ())

variable [Store ℓ σ]

/-- The whole request with nothing in between its steps. -/
def exec : Proc ℓ σ ε α → σ → Except ε α × σ
  | .done r, s => (r, s)
  | .step l next, s => (next s).exec (Store.commit l s)

def events : Proc ℓ σ ε α → σ → List (Event ℓ σ)
  | .done _, _ => []
  | .step l next, s => ⟨l, s, Store.commit l s⟩ :: (next s).events (Store.commit l s)

/-- What is left in the database when the request dies after `n` commits. -/
def crash : ℕ → Proc ℓ σ ε α → σ → σ
  | 0, _, s => s
  | _ + 1, .done _, s => s
  | n + 1, .step l next, s => crash n (next s) (Store.commit l s)

omit [Store ℓ σ]

/-- The request stripped of its answer, so that requests of all types can be
put side by side. -/
def ignore (p : Proc ℓ σ ε α) : Proc ℓ σ ε Unit := p.bind fun _ ↦ .done (.ok ())

@[simp] theorem pure_eq (a : α) : (pure a : Proc ℓ σ ε α) = .done (.ok a) := rfl

@[simp] theorem bind_eq (p : Proc ℓ σ ε α) (f : α → Proc ℓ σ ε β) : p >>= f = p.bind f := rfl

@[simp] theorem throw_eq (e : ε) : (throw e : Proc ℓ σ ε α) = .done (.error e) := rfl

@[simp] theorem tryCatch_eq (p : Proc ℓ σ ε α) (h : ε → Proc ℓ σ ε α) :
    tryCatch p h = p.handle h := rfl

@[simp] theorem map_eq (f : α → β) (p : Proc ℓ σ ε α) :
    f <$> p = p.bind fun a ↦ .done (.ok (f a)) := rfl

@[simp] theorem bind_ok (a : α) (f : α → Proc ℓ σ ε β) :
    (Proc.done (.ok a) : Proc ℓ σ ε α).bind f = f a := rfl

@[simp] theorem bind_error (e : ε) (f : α → Proc ℓ σ ε β) :
    (Proc.done (.error e) : Proc ℓ σ ε α).bind f = .done (.error e) := rfl

theorem bind_assoc (p : Proc ℓ σ ε α) (f : α → Proc ℓ σ ε β) (g : β → Proc ℓ σ ε γ) :
    (p.bind f).bind g = p.bind fun a ↦ (f a).bind g := by
  induction p with
  | done r => cases r <;> rfl
  | step l next ih =>
    simp only [bind]
    congr 1
    funext s
    exact ih s

theorem bind_done (p : Proc ℓ σ ε α) : (p.bind fun a ↦ .done (.ok a)) = p := by
  induction p with
  | done r => cases r <;> rfl
  | step l next ih =>
    simp only [bind]
    congr 1
    funext s
    exact ih s

theorem when_pos {c : Prop} [Decidable c] (h : c) (p : Proc ℓ σ ε Unit) : when c p = p := if_pos h

theorem when_neg {c : Prop} [Decidable c] (h : ¬c) (p : Proc ℓ σ ε Unit) :
    when c p = .done (.ok ()) := if_neg h

variable [Store ℓ σ]

@[simp] theorem exec_done (r : Except ε α) (s : σ) :
    (Proc.done r : Proc ℓ σ ε α).exec s = (r, s) := rfl

@[simp] theorem exec_attempt (l : ℓ) (f : σ → Except ε α) (s : σ) :
    (attempt l f).exec s = (f s, Store.commit l s) := rfl

@[simp] theorem exec_query (l : ℓ) (f : σ → α) (s : σ) :
    (query l f : Proc ℓ σ ε α).exec s = (.ok (f s), Store.commit l s) := rfl

@[simp] theorem exec_write (l : ℓ) (s : σ) :
    (write l : Proc ℓ σ ε Unit).exec s = (.ok (), Store.commit l s) := rfl

theorem exec_bind (p : Proc ℓ σ ε α) (f : α → Proc ℓ σ ε β) (s : σ) :
    (p.bind f).exec s =
      match p.exec s with
      | (.ok a, t) => (f a).exec t
      | (.error e, t) => (.error e, t) := by
  induction p generalizing s with
  | done r => cases r <;> rfl
  | step l next ih => exact ih s (Store.commit l s)

theorem exec_next {p : Proc ℓ σ ε α} {f : α → Proc ℓ σ ε β} {a : α} {s t : σ}
    (h : p.exec s = (.ok a, t)) : (p.bind f).exec s = (f a).exec t := by
  rw [exec_bind, h]

theorem exec_stop {p : Proc ℓ σ ε α} {f : α → Proc ℓ σ ε β} {e : ε} {s t : σ}
    (h : p.exec s = (.error e, t)) : (p.bind f).exec s = (.error e, t) := by
  rw [exec_bind, h]

theorem exec_bind_ok {p : Proc ℓ σ ε α} {f : α → Proc ℓ σ ε β} {s u : σ} {b : β} :
    (p.bind f).exec s = (.ok b, u) ↔
      ∃ a t, p.exec s = (.ok a, t) ∧ (f a).exec t = (.ok b, u) := by
  rw [exec_bind]
  rcases p.exec s with ⟨e | a, t⟩ <;> simp

theorem exec_handle (p : Proc ℓ σ ε α) (h : ε → Proc ℓ σ ε α) (s : σ) :
    (p.handle h).exec s =
      match p.exec s with
      | (.ok a, t) => (.ok a, t)
      | (.error e, t) => (h e).exec t := by
  induction p generalizing s with
  | done r => cases r <;> rfl
  | step l next ih => exact ih s (Store.commit l s)

theorem exec_ignore (p : Proc ℓ σ ε α) (s : σ) : (p.ignore.exec s).2 = (p.exec s).2 := by
  rw [ignore, exec_bind]
  rcases h : p.exec s with ⟨_ | _, t⟩ <;> rfl

theorem crash_of_length_le (p : Proc ℓ σ ε α) (s : σ) (n : ℕ) (hn : (p.events s).length ≤ n) :
    p.crash n s = (p.exec s).2 := by
  induction p generalizing s n with
  | done r => cases n <;> rfl
  | step l next ih =>
    cases n with
    | zero => simp [events] at hn
    | succ n => exact ih s (Store.commit l s) n (by simpa [events] using hn)

end Proc

end Towing.Process
