import AgentNetwork.Library.Atomicity
import AgentNetwork.Library.LockSafety

namespace Transactional

open Prog

variable {ε σ κ α β : Type}

/-- The sessions that calls allowed by `ok` lead to, one call after the other,
whether it returns or raises; a call that blocks is never left. -/
inductive Reaches (env : Env) (run : κ → Prog ε σ Unit) (ok : Session σ → κ → Prop) (start : Session σ) :
    Session σ → Prop
  | start : Reaches env run ok start start
  | call {s s' : Session σ} {c : κ} {out : Outcome ε Unit} : Reaches env run ok start s → ok s c →
      run c env s = (out, s') → out ≠ .blocks → Reaches env run ok start s'

/-- Nothing is pending and the data has the property. -/
def Settled (I : σ → Prop) (s : Session σ) : Prop := s.db = s.committed ∧ I s.db

theorem Reaches.settled {env : Env} {run : κ → Prog ε σ Unit} {ok : Session σ → κ → Prop} {start s : Session σ}
    {I : σ → Prop} (h : Reaches env run ok start s) (init : Settled I start)
    (step : ∀ {s c out s'}, Settled I s → ok s c → run c env s = (out, s') → out ≠ .blocks → Settled I s') :
    Settled I s := by
  induction h with
  | start => exact init
  | call _ hok hrun hout ih => exact step ih hok hrun hout

/-- The session after the calls of a list. -/
def runAll (env : Env) (run : κ → Prog ε σ Unit) : List κ → Session σ → Session σ
  | [], s => s
  | c :: cs, s => runAll env run cs (run c env s).2

/-- Each call of the list is allowed where it comes and does not block. -/
def AllAllowed (env : Env) (run : κ → Prog ε σ Unit) (ok : Session σ → κ → Prop) : List κ → Session σ → Prop
  | [], _ => True
  | c :: cs, s => ok s c ∧ (run c env s).1 ≠ .blocks ∧ AllAllowed env run ok cs (run c env s).2

theorem Reaches.runAll {env : Env} {run : κ → Prog ε σ Unit} {ok : Session σ → κ → Prop} {start s : Session σ}
    (h : Reaches env run ok start s) {cs : List κ} (hcs : AllAllowed env run ok cs s) :
    Reaches env run ok start (runAll env run cs s) := by
  induction cs generalizing s with
  | nil => exact h
  | cons c cs ih =>
    obtain ⟨hok, hout, hrest⟩ := hcs
    exact ih (.call h hok rfl hout) hrest

theorem Reaches.free {env : Env} {run : κ → Prog ε σ Unit} {ok : Session σ → κ → Prop} {start s : Session σ}
    (h : Reaches env run ok start s) (init : start.held = false) (safe : ∀ {s c}, ok s c → LockSafe (run c)) :
    s.held = false := by
  induction h with
  | start => exact init
  | call _ hok hrun _ ih =>
    have hfree := (safe hok env _ ih).2
    rwa [hrun] at hfree

/-- For an atomic program only the successful runs are left to check. -/
theorem Prog.Atomic.settles {p : Prog ε σ α} {I : σ → Prop} (h : Atomic p) {env s out s'}
    (hs : Settled I s) (hp : p env s = (out, s')) (hout : out ≠ .blocks)
    (returned : ∀ a, p env s = (.returns a, s') → I s'.db) : Settled I s' := by
  obtain ⟨hclean, hI⟩ := hs
  cases out with
  | returns a => exact ⟨h.clean hclean hp, returned a hp⟩
  | raises e =>
    obtain ⟨hdb, hcommitted⟩ := h.raised hclean hp
    refine ⟨hdb.trans (hclean.trans hcommitted.symm), ?_⟩
    rw [hdb]
    exact hI
  | blocks => exact absurd rfl hout

/-- A sequence ends settled when its first part does and the rest does after it. -/
theorem settled_bind {x : Prog ε σ α} {f : α → Prog ε σ β} {I : σ → Prop} {env s out s'}
    (first : ∀ {out s₁}, x env s = (out, s₁) → out ≠ .blocks → Settled I s₁)
    (rest : ∀ {a s₁}, x env s = (.returns a, s₁) → Settled I s₁ → f a env s₁ = (out, s') → Settled I s')
    (hp : (x >>= f) env s = (out, s')) (hout : out ≠ .blocks) : Settled I s' := by
  rw [bind_apply] at hp
  generalize hx : x env s = r at hp
  obtain ⟨result, s₁⟩ := r
  cases result with
  | returns a => exact rest hx (first hx nofun) hp
  | raises e =>
    obtain ⟨_, rfl⟩ := Prod.mk.inj hp
    exact first hx nofun
  | blocks =>
    obtain ⟨hblocks, _⟩ := Prod.mk.inj hp
    exact absurd hblocks.symm hout

/-- A successful run keeps the property. -/
def Preserves (I : σ → Prop) (p : Prog ε σ α) : Prop :=
  ∀ env s a s', I s.db → p env s = (.returns a, s') → I s'.db

section Preserves

variable {I : σ → Prop}

theorem Preserves.readOnly {p : Prog ε σ α} (h : ReadOnly p) : Preserves I p := fun _ _ _ _ hI hp => (h.eq hp).1 ▸ hI

theorem Preserves.bind {x : Prog ε σ α} {f : α → Prog ε σ β} (hx : Preserves I x) (hf : ∀ a, Preserves I (f a)) :
    Preserves I (x >>= f) := by
  intro env s b s' hI hp
  obtain ⟨a, s₁, h₁, h₂⟩ := bind_returns.mp hp
  exact hf a env s₁ b s' (hx env s a s₁ hI h₁) h₂

theorem Preserves.execute {f : σ → Except ε σ} (h : ∀ {d d'}, I d → f d = .ok d' → I d') : Preserves I (Prog.execute f) := by
  intro env s u s' hI hp
  obtain ⟨d, hd, rfl⟩ := execute_returns.mp hp
  exact h hI hd

theorem Preserves.withLock {body : Prog ε σ α} (h : Preserves I body) : Preserves I (Prog.withLock body) := by
  intro env s a s' hI hp
  obtain ⟨_, s₁, hbody, rfl⟩ := withLock_returns.mp hp
  exact h env { s with held := true } a s₁ hI hbody

theorem Preserves.withConn {body : Prog ε σ α} (h : Preserves I body) : Preserves I (Prog.withConn body) := by
  intro env s a s' hI hp
  obtain ⟨s₁, hbody, rfl⟩ := withConn_returns.mp hp
  exact h env s a s₁ hI hbody

theorem Preserves.runIf {c : Prop} [Decidable c] {p : Prog ε σ Unit} (h : Preserves I p) : Preserves I (Prog.runIf c p) := by
  unfold Prog.runIf
  split
  · exact h
  · exact .readOnly (ReadOnly.pure ())

theorem Preserves.forEach (xs : List β) {f : β → Prog ε σ Unit} (h : ∀ x, Preserves I (f x)) : Preserves I (Prog.forEach xs f) := by
  induction xs with
  | nil => exact .readOnly (ReadOnly.pure ())
  | cons x xs ih => exact (h x).bind fun _ => ih

end Preserves

/-- However it ends, it leaves the property true and nothing pending. -/
def Secures (I : σ → Prop) (p : Prog ε σ α) : Prop :=
  ∀ env s out s', Settled I s → p env s = (out, s') → out ≠ .blocks → Settled I s'

section Secures

variable {I : σ → Prop}

theorem Secures.readOnly {p : Prog ε σ α} (h : ReadOnly p) : Secures I p := by
  intro env s out s' hs hp hout
  obtain ⟨hdb, hcommitted⟩ := h.eq hp
  refine ⟨hdb.trans (hs.1.trans hcommitted.symm), ?_⟩
  rw [hdb]
  exact hs.2

/-- A transaction is undone by its exceptions. -/
theorem Secures.transaction {p : Prog ε σ α} (atomic : Atomic p) (preserves : Preserves I p) : Secures I p :=
  fun env s _ s' hs hp hout => atomic.settles hs hp hout fun a hreturns => preserves env s a s' hs.2 hreturns

theorem Secures.bind {x : Prog ε σ α} {f : α → Prog ε σ β} (hx : Secures I x) (hf : ∀ a, Secures I (f a)) :
    Secures I (x >>= f) := by
  intro env s out s' hs hp hout
  refine settled_bind ?_ ?_ hp hout
  · exact fun hrun hends => hx env s _ _ hs hrun hends
  · exact fun {a s₁} _ hmid hrest => hf a env s₁ out s' hmid hrest hout

theorem Secures.runIf {c : Prop} [Decidable c] {p : Prog ε σ Unit} (h : Secures I p) : Secures I (Prog.runIf c p) := by
  unfold Prog.runIf
  split
  · exact h
  · exact .readOnly (ReadOnly.pure ())

theorem Secures.attempted {p : Prog ε σ α} (h : Secures I p) : Secures I (Prog.attempted p) := by
  intro env s out s' hs hp hout
  unfold Prog.attempted at hp
  generalize hrun : p env s = r at hp
  obtain ⟨_ | _ | _, s₁⟩ := r
  · obtain ⟨_, rfl⟩ := Prod.mk.inj hp
    exact h env s _ _ hs hrun nofun
  · obtain ⟨_, rfl⟩ := Prod.mk.inj hp
    exact h env s _ _ hs hrun nofun
  · obtain ⟨hblocks, _⟩ := Prod.mk.inj hp
    exact absurd hblocks.symm hout

end Secures

end Transactional
