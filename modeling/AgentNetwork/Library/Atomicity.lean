import AgentNetwork.Library.Program

namespace Transactional

namespace Prog

variable {ε σ α β : Type}

/-- Leaves the connection and the last commit alone, whatever the outcome. -/
def ReadOnly (p : Prog ε σ α) : Prop :=
  ∀ env s, (p env s).2.db = s.db ∧ (p env s).2.committed = s.committed

/-- May write on the connection but never commits. -/
def NoCommit (p : Prog ε σ α) : Prop := ∀ env s, (p env s).2.committed = s.committed

/-- Run with nothing pending it leaves nothing pending, and an exception finds
the data as it was. -/
structure Atomic (p : Prog ε σ α) : Prop where
  clean : ∀ {env s a s'}, s.db = s.committed → p env s = (.returns a, s') → s'.db = s'.committed
  raised : ∀ {env s e s'}, s.db = s.committed → p env s = (.raises e, s') →
    s'.db = s.db ∧ s'.committed = s.committed

theorem ReadOnly.noCommit {p : Prog ε σ α} (h : ReadOnly p) : NoCommit p := fun env s => (h env s).2

theorem ReadOnly.eq {p : Prog ε σ α} (h : ReadOnly p) {env s out s'} (hp : p env s = (out, s')) :
    s'.db = s.db ∧ s'.committed = s.committed := by
  have := h env s
  rwa [hp] at this

theorem NoCommit.eq {p : Prog ε σ α} (h : NoCommit p) {env s out s'} (hp : p env s = (out, s')) :
    s'.committed = s.committed := by
  have := h env s
  rwa [hp] at this

theorem ReadOnly.pure (a : α) : ReadOnly (pure a : Prog ε σ α) := fun _ _ => ⟨rfl, rfl⟩

theorem ReadOnly.raise (e : ε) : ReadOnly (raise e : Prog ε σ α) := fun _ _ => ⟨rfl, rfl⟩

theorem ReadOnly.query (f : σ → α) : ReadOnly (query f : Prog ε σ α) := fun _ _ => ⟨rfl, rfl⟩

theorem ReadOnly.uuid4 : ReadOnly (uuid4 : Prog ε σ String) := fun _ _ => ⟨rfl, rfl⟩

theorem ReadOnly.timeNs : ReadOnly (timeNs : Prog ε σ Int) := fun _ _ => ⟨rfl, rfl⟩

theorem ReadOnly.raiseIf (c : Prop) [Decidable c] (e : ε) : ReadOnly (raiseIf c e : Prog ε σ Unit) := by
  unfold Prog.raiseIf
  split
  · exact ReadOnly.raise e
  · exact ReadOnly.pure ()

theorem ReadOnly.bind {x : Prog ε σ α} {f : α → Prog ε σ β} (hx : ReadOnly x) (hf : ∀ a, ReadOnly (f a)) :
    ReadOnly (x >>= f) := by
  intro env s
  rw [bind_apply]
  have h := hx env s
  generalize x env s = r at h ⊢
  rcases r with ⟨a | e | _, s₁⟩
  · obtain ⟨hdb, hcommitted⟩ := hf a env s₁
    exact ⟨hdb.trans h.1, hcommitted.trans h.2⟩
  · exact h
  · exact h

theorem NoCommit.execute (f : σ → Except ε σ) : NoCommit (execute f) := by
  intro env s
  unfold Prog.execute
  cases f s.db <;> rfl

theorem NoCommit.bind {x : Prog ε σ α} {f : α → Prog ε σ β} (hx : NoCommit x) (hf : ∀ a, NoCommit (f a)) :
    NoCommit (x >>= f) := by
  intro env s
  rw [bind_apply]
  have h := hx env s
  generalize x env s = r at h ⊢
  rcases r with ⟨a | e | _, s₁⟩
  · exact (hf a env s₁).trans h
  · exact h
  · exact h

theorem NoCommit.runIf {c : Prop} [Decidable c] {p : Prog ε σ Unit} (h : NoCommit p) : NoCommit (runIf c p) := by
  unfold Prog.runIf
  split
  · exact h
  · exact (ReadOnly.pure ()).noCommit

theorem NoCommit.forEach (xs : List β) {f : β → Prog ε σ Unit} (h : ∀ x, NoCommit (f x)) :
    NoCommit (forEach xs f) := by
  induction xs with
  | nil => exact (ReadOnly.pure ()).noCommit
  | cons x xs ih => exact NoCommit.bind (h x) fun _ => ih

theorem ReadOnly.atomic {p : Prog ε σ α} (h : ReadOnly p) : Atomic p where
  clean hs hp := (h.eq hp).1.trans (hs.trans (h.eq hp).2.symm)
  raised _ hp := h.eq hp

/-- A transaction whose body leaves the commits to it is atomic, and its
rollback undoes what was pending before it as well. -/
theorem withConn_rollsBack {body : Prog ε σ α} (h : NoCommit body) {env s e s'}
    (hp : withConn body env s = (.raises e, s')) : s'.db = s.committed ∧ s'.committed = s.committed := by
  obtain ⟨s₁, hb, rfl⟩ := withConn_raises.mp hp
  have hcommitted := h.eq hb
  exact ⟨hcommitted, hcommitted⟩

theorem withConn_clean {body : Prog ε σ α} {env s a s'}
    (hp : withConn body env s = (.returns a, s')) : s'.db = s'.committed := by
  obtain ⟨s₁, _, rfl⟩ := withConn_returns.mp hp
  rfl

theorem Atomic.withConn {body : Prog ε σ α} (h : NoCommit body) : Atomic (withConn body) where
  clean _ hp := withConn_clean hp
  raised hs hp := by
    obtain ⟨hdb, hcommitted⟩ := withConn_rollsBack h hp
    exact ⟨hdb.trans hs.symm, hcommitted⟩

theorem Atomic.bind_readOnly {x : Prog ε σ α} {f : α → Prog ε σ β} (hx : ReadOnly x) (hf : ∀ a, Atomic (f a)) :
    Atomic (x >>= f) where
  clean hs hp := by
    obtain ⟨a, s₁, h₁, h₂⟩ := bind_returns.mp hp
    obtain ⟨hdb, hcommitted⟩ := hx.eq h₁
    exact (hf a).clean (hdb.trans (hs.trans hcommitted.symm)) h₂
  raised hs hp := by
    rcases bind_raises.mp hp with h | ⟨a, s₁, h₁, h₂⟩
    · exact hx.eq h
    · obtain ⟨hdb, hcommitted⟩ := hx.eq h₁
      obtain ⟨hdb', hcommitted'⟩ := (hf a).raised (hdb.trans (hs.trans hcommitted.symm)) h₂
      exact ⟨hdb'.trans hdb, hcommitted'.trans hcommitted⟩

/-- A statement left pending before a transaction is rolled back with it. -/
theorem Atomic.execute_withConn {f : σ → Except ε σ} {body : Unit → Prog ε σ α} (h : ∀ u, NoCommit (body u)) :
    Atomic (execute f >>= fun u => Prog.withConn (body u)) where
  clean _ hp := by
    obtain ⟨u, s₁, _, h₂⟩ := bind_returns.mp hp
    exact withConn_clean h₂
  raised hs hp := by
    rcases bind_raises.mp hp with h₁ | ⟨u, s₁, h₁, h₂⟩
    · obtain ⟨_, rfl⟩ := execute_raises.mp h₁
      exact ⟨rfl, rfl⟩
    · obtain ⟨d, _, rfl⟩ := execute_returns.mp h₁
      obtain ⟨hdb, hcommitted⟩ := withConn_rollsBack (h u) h₂
      exact ⟨hdb.trans hs.symm, hcommitted⟩

/-- A computation on the result alone keeps a program atomic. -/
theorem Atomic.map {x : Prog ε σ α} (hx : Atomic x) (g : α → β) : Atomic (x >>= fun a => Pure.pure (g a)) where
  clean hs hp := by
    obtain ⟨a, s₁, h₁, h₂⟩ := bind_returns.mp hp
    obtain ⟨_, rfl⟩ := Prod.mk.inj h₂
    exact hx.clean hs h₁
  raised hs hp := by
    rcases bind_raises.mp hp with h | ⟨a, s₁, _, h₂⟩
    · exact hx.raised hs h
    · cases (Prod.mk.inj h₂).1

theorem Atomic.mapError {ε' : Type} {x : Prog ε σ α} (hx : Atomic x) (f : ε → ε') : Atomic (mapError f x) where
  clean hs hp := hx.clean hs (mapError_returns.mp hp)
  raised hs hp := by
    obtain ⟨e, hraises, _⟩ := mapError_raises.mp hp
    exact hx.raised hs hraises

theorem Atomic.ite {c : Prop} [Decidable c] {p q : Prog ε σ α} (hp : Atomic p) (hq : Atomic q) :
    Atomic (if c then p else q) := by
  split
  · exact hp
  · exact hq

theorem Atomic.withLock {body : Prog ε σ α} (h : Atomic body) : Atomic (withLock body) where
  clean {env s a s'} hs hp := by
    obtain ⟨_, s₁, hb, rfl⟩ := withLock_returns.mp hp
    have hs₁ : ({ s with held := true } : Session σ).db = ({ s with held := true } : Session σ).committed := hs
    have hclean := h.clean hs₁ hb
    exact hclean
  raised {env s e s'} hs hp := by
    obtain ⟨_, s₁, hb, rfl⟩ := withLock_raises.mp hp
    have hs₁ : ({ s with held := true } : Session σ).db = ({ s with held := true } : Session σ).committed := hs
    have hraised := h.raised hs₁ hb
    exact hraised

end Prog

end Transactional
