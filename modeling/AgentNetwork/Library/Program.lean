import Mathlib.Logic.Basic
import Mathlib.Tactic.Common

namespace Transactional

/-- How a call ends: with a value, with an exception, or never. -/
inductive Outcome (ε α : Type)
  | returns (a : α)
  | raises (e : ε)
  | blocks
  deriving DecidableEq

/-- One connection and the lock its callers share. `db` is what the connection
sees and `committed` what the last commit left; `draws` and `ticks` count the
fresh names and the clock readings taken so far. -/
structure Session (σ : Type) where
  db : σ
  committed : σ
  held : Bool
  draws : Nat
  ticks : Nat
  deriving DecidableEq

/-- What a run does not choose: whether the lock may be taken again by its
holder, the clock and the supply of fresh names. -/
structure Env where
  reentrant : Bool
  timeNs : Nat → Int
  uuid4 : Nat → String

theorem except_bind_ok {ε α β : Type} {x : Except ε α} {f : α → Except ε β} {b : β} :
    (x >>= f) = .ok b ↔ ∃ a, x = .ok a ∧ f a = .ok b := by
  cases x with
  | error e => simp [bind, Except.bind]
  | ok a => simp [bind, Except.bind]

theorem except_map_ok {ε α β : Type} {x : Except ε α} {f : α → β} {b : β} :
    x.map f = .ok b ↔ ∃ a, x = .ok a ∧ f a = b := by
  cases x with
  | error e => simp [Except.map]
  | ok a => simp [Except.map]

/-- Every element of a loop that goes through has its result. -/
theorem mapM_mem {ε α β : Type} {f : α → Except ε β} {l : List α} {results : List β} (h : l.mapM f = .ok results) {a : α}
    (ha : a ∈ l) : ∃ b ∈ results, f a = .ok b := by
  induction l generalizing results with
  | nil => cases ha
  | cons first rest ih =>
    rw [List.mapM_cons] at h
    obtain ⟨b, hb, h⟩ := except_bind_ok.mp h
    obtain ⟨others, hothers, h⟩ := except_bind_ok.mp h
    cases h
    rcases List.mem_cons.mp ha with rfl | ha
    · exact ⟨b, List.mem_cons_self, hb⟩
    · obtain ⟨c, hc, hfc⟩ := ih hothers ha
      exact ⟨c, List.mem_cons_of_mem _ hc, hfc⟩

/-- A loop that makes something of every element goes through in any order or in none. -/
theorem mapM_perm {ε α β : Type} {f : α → Except ε β} {l l' : List α} (h : l.Perm l') {r : List β} (hr : l.mapM f = .ok r) :
    ∃ r', l'.mapM f = .ok r' ∧ r.Perm r' := by
  induction h generalizing r with
  | nil => exact ⟨r, hr, List.Perm.refl r⟩
  | cons a _ ih =>
    rw [List.mapM_cons] at hr
    obtain ⟨b, hb, hr⟩ := except_bind_ok.mp hr
    obtain ⟨rest, hrest, hr⟩ := except_bind_ok.mp hr
    cases hr
    obtain ⟨rest', hrest', hperm⟩ := ih hrest
    refine ⟨b :: rest', ?_, hperm.cons b⟩
    rw [List.mapM_cons, hb, hrest']
    rfl
  | swap a b l =>
    rw [List.mapM_cons] at hr
    obtain ⟨y, hy, hr⟩ := except_bind_ok.mp hr
    obtain ⟨tail, htail, hr⟩ := except_bind_ok.mp hr
    rw [List.mapM_cons] at htail
    obtain ⟨x, hx, htail⟩ := except_bind_ok.mp htail
    obtain ⟨rest, hrest, htail⟩ := except_bind_ok.mp htail
    cases htail
    cases hr
    refine ⟨x :: y :: rest, ?_, List.Perm.swap x y rest⟩
    rw [List.mapM_cons, List.mapM_cons, hx, hy, hrest]
    rfl
  | trans _ _ ih ih' =>
    obtain ⟨r', hr', hperm⟩ := ih hr
    obtain ⟨r'', hr'', hperm'⟩ := ih' hr'
    exact ⟨r'', hr'', hperm.trans hperm'⟩

def Prog (ε σ α : Type) := Env → Session σ → Outcome ε α × Session σ

namespace Prog

variable {ε σ α β γ : Type}

protected def bind (x : Prog ε σ α) (f : α → Prog ε σ β) : Prog ε σ β := fun env s =>
  match x env s with
  | (.returns a, s') => f a env s'
  | (.raises e, s') => (.raises e, s')
  | (.blocks, s') => (.blocks, s')

instance : Monad (Prog ε σ) where
  pure a := fun _ s => (.returns a, s)
  bind := Prog.bind

def raise (e : ε) : Prog ε σ α := fun _ s => (.raises e, s)

/-- `if c: raise e`. -/
def raiseIf (c : Prop) [Decidable c] (e : ε) : Prog ε σ Unit := if c then raise e else pure ()

/-- `if c: p`. -/
def runIf (c : Prop) [Decidable c] (p : Prog ε σ Unit) : Prog ε σ Unit := if c then p else pure ()

def query (f : σ → α) : Prog ε σ α := fun _ s => (.returns (f s.db), s)

/-- One statement: it takes effect as a whole or raises and does nothing. -/
def execute (f : σ → Except ε σ) : Prog ε σ Unit := fun _ s =>
  match f s.db with
  | .ok d => (.returns (), { s with db := d })
  | .error e => (.raises e, s)

def uuid4 : Prog ε σ String := fun env s => (.returns (env.uuid4 s.draws), { s with draws := s.draws + 1 })

def timeNs : Prog ε σ Int := fun env s => (.returns (env.timeNs s.ticks), { s with ticks := s.ticks + 1 })

/-- The run with its exceptions seen as others. -/
def mapError {ε' : Type} (f : ε → ε') (p : Prog ε σ α) : Prog ε' σ α := fun env s =>
  match p env s with
  | (.returns a, s') => (.returns a, s')
  | (.raises e, s') => (.raises (f e), s')
  | (.blocks, s') => (.blocks, s')

/-- `try: p` with an `except Exception` that goes on; `none` after an exception. -/
def attempted (p : Prog ε σ α) : Prog ε σ (Option α) := fun env s =>
  match p env s with
  | (.returns a, s') => (.returns (some a), s')
  | (.raises _, s') => (.returns none, s')
  | (.blocks, s') => (.blocks, s')

def forEach : List β → (β → Prog ε σ Unit) → Prog ε σ Unit
  | [], _ => pure ()
  | x :: xs, f => f x >>= fun _ => forEach xs f

/-- `with lock:`. A holder that may not take the lock again waits for itself. -/
def withLock (body : Prog ε σ α) : Prog ε σ α := fun env s =>
  if s.held && !env.reentrant then (.blocks, s)
  else
    match body env { s with held := true } with
    | (.blocks, s') => (.blocks, s')
    | (out, s') => (out, { s' with held := s.held })

/-- `with conn:`. Commits what the connection sees, or rolls it back and reraises. -/
def withConn (body : Prog ε σ α) : Prog ε σ α := fun env s =>
  match body env s with
  | (.returns a, s') => (.returns a, { s' with committed := s'.db })
  | (.raises e, s') => (.raises e, { s' with db := s'.committed })
  | (.blocks, s') => (.blocks, s')

section Inversion

variable {env : Env} {s s' : Session σ} {a : α} {b : β} {e : ε}

theorem bind_apply (x : Prog ε σ α) (f : α → Prog ε σ β) :
    (x >>= f) env s = match x env s with
      | (.returns a, s') => f a env s'
      | (.raises e, s') => (.raises e, s')
      | (.blocks, s') => (.blocks, s') := rfl

@[simp] theorem bind_returns {x : Prog ε σ α} {f : α → Prog ε σ β} :
    (x >>= f) env s = (.returns b, s') ↔
      ∃ a s₁, x env s = (.returns a, s₁) ∧ f a env s₁ = (.returns b, s') := by
  rw [bind_apply]
  rcases x env s with ⟨_ | _ | _, s₁⟩ <;> simp

@[simp] theorem bind_raises {x : Prog ε σ α} {f : α → Prog ε σ β} :
    (x >>= f) env s = (.raises e, s') ↔
      x env s = (.raises e, s') ∨ ∃ a s₁, x env s = (.returns a, s₁) ∧ f a env s₁ = (.raises e, s') := by
  rw [bind_apply]
  rcases x env s with ⟨_ | _ | _, s₁⟩ <;> simp

@[simp] theorem bind_blocks {x : Prog ε σ α} {f : α → Prog ε σ β} :
    (x >>= f) env s = (.blocks, s') ↔
      x env s = (.blocks, s') ∨ ∃ a s₁, x env s = (.returns a, s₁) ∧ f a env s₁ = (.blocks, s') := by
  rw [bind_apply]
  rcases x env s with ⟨_ | _ | _, s₁⟩ <;> simp

theorem bind_of_returns {x : Prog ε σ α} {f : α → Prog ε σ β} {s₁ : Session σ} (h : x env s = (.returns a, s₁)) :
    (x >>= f) env s = f a env s₁ := by
  rw [bind_apply, h]

theorem bind_of_raises {x : Prog ε σ α} {f : α → Prog ε σ β} {s₁ : Session σ} (h : x env s = (.raises e, s₁)) :
    (x >>= f) env s = (.raises e, s₁) := by
  rw [bind_apply, h]

theorem bind_of_blocks {x : Prog ε σ α} {f : α → Prog ε σ β} {s₁ : Session σ} (h : x env s = (.blocks, s₁)) :
    (x >>= f) env s = (.blocks, s₁) := by
  rw [bind_apply, h]

@[simp] theorem pure_apply : (pure a : Prog ε σ α) env s = (.returns a, s) := rfl

@[simp] theorem raise_apply : (raise e : Prog ε σ α) env s = (.raises e, s) := rfl

@[simp] theorem query_apply (f : σ → α) : (query f : Prog ε σ α) env s = (.returns (f s.db), s) := rfl

@[simp] theorem uuid4_apply :
    (uuid4 : Prog ε σ String) env s = (.returns (env.uuid4 s.draws), { s with draws := s.draws + 1 }) := rfl

@[simp] theorem timeNs_apply :
    (timeNs : Prog ε σ Int) env s = (.returns (env.timeNs s.ticks), { s with ticks := s.ticks + 1 }) := rfl

@[simp] theorem execute_returns {f : σ → Except ε σ} {u : Unit} :
    execute f env s = (.returns u, s') ↔ ∃ d, f s.db = .ok d ∧ s' = { s with db := d } := by
  unfold execute
  cases f s.db <;> simp [eq_comm]

@[simp] theorem execute_raises {f : σ → Except ε σ} :
    execute f env s = (.raises e, s') ↔ f s.db = .error e ∧ s' = s := by
  unfold execute
  cases f s.db <;> simp [eq_comm]

@[simp] theorem execute_blocks {f : σ → Except ε σ} : execute f env s ≠ (.blocks, s') := by
  unfold execute
  cases f s.db <;> simp

@[simp] theorem raiseIf_returns {c : Prop} [Decidable c] {u : Unit} :
    (raiseIf c e : Prog ε σ Unit) env s = (.returns u, s') ↔ ¬c ∧ s' = s := by
  unfold raiseIf
  split <;> simp_all [eq_comm]

@[simp] theorem raiseIf_raises {c : Prop} [Decidable c] {e' : ε} :
    (raiseIf c e : Prog ε σ Unit) env s = (.raises e', s') ↔ c ∧ e' = e ∧ s' = s := by
  unfold raiseIf
  split <;> simp_all [eq_comm]

@[simp] theorem raiseIf_blocks {c : Prop} [Decidable c] :
    (raiseIf c e : Prog ε σ Unit) env s ≠ (.blocks, s') := by
  unfold raiseIf
  split <;> simp

theorem execute_of_ok {f : σ → Except ε σ} {d : σ} (h : f s.db = .ok d) :
    (execute f : Prog ε σ Unit) env s = (.returns (), { s with db := d }) := by
  rw [execute, h]

theorem raiseIf_of_not {c : Prop} [Decidable c] (h : ¬c) : (raiseIf c e : Prog ε σ Unit) env s = (.returns (), s) := by
  rw [raiseIf, if_neg h]
  rfl

theorem raiseIf_of {c : Prop} [Decidable c] (h : c) : (raiseIf c e : Prog ε σ Unit) env s = (.raises e, s) := by
  rw [raiseIf, if_pos h]
  rfl

theorem runIf_apply {c : Prop} [Decidable c] (p : Prog ε σ Unit) :
    runIf c p env s = if c then p env s else (.returns (), s) := by
  unfold runIf
  split <;> rfl

@[simp] theorem runIf_returns {c : Prop} [Decidable c] {p : Prog ε σ Unit} {u : Unit} :
    runIf c p env s = (.returns u, s') ↔ (c ∧ p env s = (.returns u, s')) ∨ (¬c ∧ s' = s) := by
  unfold runIf
  split <;> simp_all [eq_comm]

theorem withLock_apply (body : Prog ε σ α) (h : s.held = false ∨ env.reentrant = true) :
    withLock body env s = match body env { s with held := true } with
      | (.blocks, s') => (.blocks, s')
      | (out, s') => (out, { s' with held := s.held }) := by
  unfold withLock
  rw [if_neg (by rcases h with h | h <;> simp [h])]

theorem withLock_of_held (body : Prog ε σ α) (h : ¬(s.held = false ∨ env.reentrant = true)) :
    withLock body env s = (.blocks, s) := by
  unfold withLock
  rw [if_pos (by simpa using h)]

@[simp] theorem withLock_returns {body : Prog ε σ α} :
    withLock body env s = (.returns a, s') ↔ (s.held = false ∨ env.reentrant = true) ∧
      ∃ s₁, body env { s with held := true } = (.returns a, s₁) ∧ s' = { s₁ with held := s.held } := by
  by_cases hfree : s.held = false ∨ env.reentrant = true
  · rw [withLock_apply body hfree]
    rcases body env { s with held := true } with ⟨_ | _ | _, s₁⟩ <;> simp [hfree]
    exact fun _ => eq_comm
  · simp [withLock_of_held body hfree, hfree]

@[simp] theorem withLock_raises {body : Prog ε σ α} :
    withLock body env s = (.raises e, s') ↔ (s.held = false ∨ env.reentrant = true) ∧
      ∃ s₁, body env { s with held := true } = (.raises e, s₁) ∧ s' = { s₁ with held := s.held } := by
  by_cases hfree : s.held = false ∨ env.reentrant = true
  · rw [withLock_apply body hfree]
    rcases body env { s with held := true } with ⟨_ | _ | _, s₁⟩ <;> simp [hfree]
    exact fun _ => eq_comm
  · simp [withLock_of_held body hfree, hfree]

@[simp] theorem withConn_returns {body : Prog ε σ α} :
    withConn body env s = (.returns a, s') ↔
      ∃ s₁, body env s = (.returns a, s₁) ∧ s' = { s₁ with committed := s₁.db } := by
  unfold withConn
  rcases body env s with ⟨_ | _ | _, s₁⟩ <;> simp [eq_comm]

@[simp] theorem withConn_raises {body : Prog ε σ α} :
    withConn body env s = (.raises e, s') ↔
      ∃ s₁, body env s = (.raises e, s₁) ∧ s' = { s₁ with db := s₁.committed } := by
  unfold withConn
  rcases body env s with ⟨_ | _ | _, s₁⟩ <;> simp [eq_comm]

@[simp] theorem mapError_returns {ε' : Type} {f : ε → ε'} {p : Prog ε σ α} :
    mapError f p env s = (.returns a, s') ↔ p env s = (.returns a, s') := by
  unfold mapError
  rcases p env s with ⟨_ | _ | _, s₁⟩ <;> simp

@[simp] theorem mapError_raises {ε' : Type} {f : ε → ε'} {p : Prog ε σ α} {e' : ε'} :
    mapError f p env s = (.raises e', s') ↔ ∃ e, p env s = (.raises e, s') ∧ f e = e' := by
  unfold mapError
  rcases p env s with ⟨_ | _ | _, s₁⟩ <;> simp [and_comm]

@[simp] theorem attempted_returns_some {p : Prog ε σ α} :
    attempted p env s = (.returns (some a), s') ↔ p env s = (.returns a, s') := by
  unfold attempted
  rcases p env s with ⟨_ | _ | _, s₁⟩ <;> simp

theorem forEach_cons (x : β) (xs : List β) (f : β → Prog ε σ Unit) :
    forEach (x :: xs) f = f x >>= fun _ => forEach xs f := rfl

/-- A loop of checks goes through where none of them fails and else raises; it writes nothing. -/
theorem forEach_raiseIf (xs : List β) (c : β → Prop) [DecidablePred c] (error : β → ε) :
    ((∀ x ∈ xs, ¬c x) ∧ (forEach xs fun x => (raiseIf (c x) (error x) : Prog ε σ Unit)) env s = (.returns (), s)) ∨
    ((∃ x ∈ xs, c x) ∧ ∃ e, (forEach xs fun x => (raiseIf (c x) (error x) : Prog ε σ Unit)) env s = (.raises e, s)) := by
  induction xs with
  | nil => exact .inl ⟨List.forall_mem_nil _, rfl⟩
  | cons x rest ih =>
    rw [forEach_cons]
    by_cases hx : c x
    · exact .inr ⟨⟨x, List.mem_cons_self, hx⟩, error x, bind_of_raises (raiseIf_of hx)⟩
    · rw [bind_of_returns (raiseIf_of_not hx)]
      obtain ⟨hall, hrun⟩ | ⟨⟨y, hy, hcy⟩, hrun⟩ := ih
      · exact .inl ⟨List.forall_mem_cons.mpr ⟨hx, hall⟩, hrun⟩
      · exact .inr ⟨⟨y, List.mem_cons_of_mem _ hy, hcy⟩, hrun⟩

end Inversion

end Prog

end Transactional
