import AgentNetwork.Library.Program

namespace Transactional

namespace Prog

variable {ε σ α β : Type}

/-- Never touches the lock: it runs to its end and leaves the lock as it found it. -/
def Quiet (p : Prog ε σ α) : Prop := ∀ env s, (p env s).1 ≠ .blocks ∧ (p env s).2.held = s.held

/-- The run from here comes to its end and leaves the lock free. -/
def EndsFree (p : Prog ε σ α) (env : Env) (s : Session σ) : Prop := (p env s).1 ≠ .blocks ∧ (p env s).2.held = false

def LockSafe (p : Prog ε σ α) : Prop := ∀ env s, s.held = false → EndsFree p env s

theorem Quiet.lockSafe {p : Prog ε σ α} (h : Quiet p) : LockSafe p := by
  intro env s hs
  exact ⟨(h env s).1, (h env s).2.trans hs⟩

theorem Quiet.pure (a : α) : Quiet (pure a : Prog ε σ α) := fun _ _ => ⟨nofun, rfl⟩

theorem Quiet.raise (e : ε) : Quiet (raise e : Prog ε σ α) := fun _ _ => ⟨nofun, rfl⟩

theorem Quiet.query (f : σ → α) : Quiet (query f : Prog ε σ α) := fun _ _ => ⟨nofun, rfl⟩

theorem Quiet.uuid4 : Quiet (uuid4 : Prog ε σ String) := fun _ _ => ⟨nofun, rfl⟩

theorem Quiet.timeNs : Quiet (timeNs : Prog ε σ Int) := fun _ _ => ⟨nofun, rfl⟩

theorem Quiet.execute (f : σ → Except ε σ) : Quiet (execute f) := by
  intro env s
  unfold Prog.execute
  cases f s.db <;> exact ⟨nofun, rfl⟩

theorem Quiet.bind {x : Prog ε σ α} {f : α → Prog ε σ β} (hx : Quiet x) (hf : ∀ a, Quiet (f a)) :
    Quiet (x >>= f) := by
  intro env s
  rw [bind_apply]
  have h := hx env s
  generalize x env s = r at h ⊢
  rcases r with ⟨a | e | _, s₁⟩
  · exact ⟨(hf a env s₁).1, (hf a env s₁).2.trans h.2⟩
  · exact ⟨nofun, h.2⟩
  · exact absurd rfl h.1

theorem Quiet.ite {c : Prop} [Decidable c] {p q : Prog ε σ α} (hp : Quiet p) (hq : Quiet q) :
    Quiet (if c then p else q) := by
  split
  · exact hp
  · exact hq

theorem Quiet.raiseIf (c : Prop) [Decidable c] (e : ε) : Quiet (raiseIf c e : Prog ε σ Unit) :=
  Quiet.ite (Quiet.raise e) (Quiet.pure ())

theorem Quiet.runIf {c : Prop} [Decidable c] {p : Prog ε σ Unit} (h : Quiet p) : Quiet (runIf c p) :=
  Quiet.ite h (Quiet.pure ())

theorem Quiet.forEach (xs : List β) {f : β → Prog ε σ Unit} (h : ∀ x, Quiet (f x)) : Quiet (forEach xs f) := by
  induction xs with
  | nil => exact Quiet.pure ()
  | cons x xs ih => exact Quiet.bind (h x) fun _ => ih

theorem Quiet.withConn {body : Prog ε σ α} (h : Quiet body) : Quiet (withConn body) := by
  intro env s
  have hb := h env s
  unfold Prog.withConn
  generalize body env s = r at hb ⊢
  rcases r with ⟨a | e | _, s₁⟩
  · exact ⟨nofun, hb.2⟩
  · exact ⟨nofun, hb.2⟩
  · exact absurd rfl hb.1

/-- One critical section around a body that leaves the lock alone is safe. -/
theorem LockSafe.withLock {body : Prog ε σ α} (h : Quiet body) : LockSafe (withLock body) := by
  intro env s hs
  rw [EndsFree, withLock_apply body (Or.inl hs)]
  have hb := h env { s with held := true }
  generalize body env { s with held := true } = r at hb ⊢
  rcases r with ⟨a | e | _, s₁⟩
  · exact ⟨nofun, hs⟩
  · exact ⟨nofun, hs⟩
  · exact absurd rfl hb.1

/-- With the lock free a critical section is safe exactly when its body, which
holds the lock, runs to its end. -/
theorem withLock_endsFree_iff {body : Prog ε σ α} {env : Env} {s : Session σ} (hs : s.held = false) :
    EndsFree (withLock body) env s ↔ (body env { s with held := true }).1 ≠ .blocks := by
  rw [EndsFree, withLock_apply body (Or.inl hs)]
  generalize body env { s with held := true } = r
  rcases r with ⟨a | e | _, s₁⟩
  · exact ⟨fun _ => nofun, fun _ => ⟨nofun, hs⟩⟩
  · exact ⟨fun _ => nofun, fun _ => ⟨nofun, hs⟩⟩
  · exact ⟨fun h => absurd rfl h.1, fun h => absurd rfl h⟩

/-- A second acquisition by the holder of a lock that is not reentrant never ends. -/
theorem withLock_held {body : Prog ε σ α} {env : Env} {s : Session σ} (henv : env.reentrant = false)
    (hs : s.held = true) : withLock body env s = (.blocks, s) := by
  rw [withLock, if_pos (by simp [henv, hs])]

/-- What comes after does not matter when it never touches the lock. -/
theorem bind_quiet_blocks_iff {x : Prog ε σ α} {f : α → Prog ε σ β} (hf : ∀ a, Quiet (f a)) {env : Env} {s : Session σ} :
    ((x >>= f) env s).1 = .blocks ↔ (x env s).1 = .blocks := by
  rw [bind_apply]
  generalize x env s = r
  rcases r with ⟨a | e | _, s₁⟩
  · exact ⟨fun h => absurd h (hf a env s₁).1, nofun⟩
  · exact ⟨nofun, nofun⟩
  · exact ⟨fun _ => rfl, fun _ => rfl⟩

theorem bind_pure_endsFree_iff {x : Prog ε σ α} {g : α → β} {env : Env} {s : Session σ} :
    EndsFree (x >>= fun a => Pure.pure (g a)) env s ↔ EndsFree x env s := by
  rw [EndsFree, EndsFree, bind_apply]
  generalize x env s = r
  rcases r with ⟨a | e | _, s₁⟩
  · exact ⟨fun h => ⟨nofun, h.2⟩, fun h => ⟨nofun, h.2⟩⟩
  · exact ⟨fun h => ⟨nofun, h.2⟩, fun h => ⟨nofun, h.2⟩⟩
  · exact ⟨fun h => absurd rfl h.1, fun h => absurd rfl h.1⟩

theorem LockSafe.bind {x : Prog ε σ α} {f : α → Prog ε σ β} (hx : LockSafe x) (hf : ∀ a, LockSafe (f a)) :
    LockSafe (x >>= f) := by
  intro env s hs
  have h := hx env s hs
  rw [EndsFree] at h ⊢
  rw [bind_apply]
  generalize x env s = r at h ⊢
  rcases r with ⟨a | e | _, s₁⟩
  · exact hf a env s₁ h.2
  · exact ⟨nofun, h.2⟩
  · exact absurd rfl h.1

theorem LockSafe.mapError {ε' : Type} {x : Prog ε σ α} (hx : LockSafe x) (f : ε → ε') : LockSafe (mapError f x) := by
  intro env s hs
  have h := hx env s hs
  rw [EndsFree] at h ⊢
  rw [Prog.mapError]
  generalize x env s = r at h ⊢
  rcases r with ⟨a | e | _, s₁⟩
  · exact ⟨nofun, h.2⟩
  · exact ⟨nofun, h.2⟩
  · exact absurd rfl h.1

theorem LockSafe.ite {c : Prop} [Decidable c] {p q : Prog ε σ α} (hp : LockSafe p) (hq : LockSafe q) :
    LockSafe (if c then p else q) := by
  split
  · exact hp
  · exact hq

end Prog

end Transactional
