import AgentNetwork.Sharding.Overtaking

namespace AgentNetwork.Sharding

open Relational Relation Grounding

namespace CommitmentProtocol

def Listed (cs : List CommitmentArtifact) (h : String) : Prop := ∃ k ∈ cs, k.commitmentHash = h

def Lists (cs : List CommitmentArtifact) (h d : String) : Prop := ∃ k ∈ cs, k.commitmentHash = h ∧ d ∈ k.dependencies

/-- `h` and all its transitive dependencies are published, and `h` reaches no dependency cycle. -/
def Settled (cs : List CommitmentArtifact) (h : String) : Prop :=
  Listed cs h ∧ (∀ d, TransGen (Lists cs) h d → Listed cs d) ∧ ∀ d, ReflTransGen (Lists cs) h d → ¬TransGen (Lists cs) d d

/-- No settled commitment lists two dependencies one of which depends on the other. -/
def Untangled (cs : List CommitmentArtifact) : Prop :=
  ∀ c, Settled cs c → ∀ h x, Lists cs c h → Lists cs c x → ¬TransGen (Lists cs) x h

def publishAll (cs : List CommitmentArtifact) : CommitmentProtocol :=
  cs.foldl (fun p k => (publishCommitment k p).2) init

section Graphs

variable {cs ds : List CommitmentArtifact} {p : CommitmentProtocol} {k : CommitmentArtifact} {h : String}

theorem settled_iff : Settled cs h ↔ Grounded (Listed cs) (Lists cs) h := by
  have hfinite : {x | Listed cs x}.Finite := by
    refine (List.finite_toSet (cs.map (·.commitmentHash))).subset ?_
    intro x hx
    obtain ⟨k, hk, rfl⟩ := hx
    exact List.mem_map_of_mem hk
  exact (grounded_iff hfinite).symm

theorem listed_congr (hmem : ∀ k, k ∈ cs ↔ k ∈ ds) : Listed cs = Listed ds := by
  funext x
  simp only [Listed, hmem]

theorem lists_congr (hmem : ∀ k, k ∈ cs ↔ k ∈ ds) : Lists cs = Lists ds := by
  funext x d
  simp only [Lists, hmem]

theorem settled_congr (hmem : ∀ k, k ∈ cs ↔ k ∈ ds) : Settled cs h ↔ Settled ds h := by
  rw [Settled, listed_congr hmem, lists_congr hmem, Settled]

theorem Settled.mono (hnodup : (cs.map (·.commitmentHash)).Nodup) (hsub : ∀ k ∈ ds, k ∈ cs) (hs : Settled ds h) : Settled cs h := by
  rw [settled_iff] at hs ⊢
  refine hs.mono ?_ ?_
  · intro x hx
    obtain ⟨k, hk, hhash⟩ := hx
    exact ⟨k, hsub k hk, hhash⟩
  · intro x d hx hd
    obtain ⟨k, hk, hhash⟩ := hx
    obtain ⟨k', hk', hhash', hd⟩ := hd
    obtain rfl := List.inj_on_of_nodup_map hnodup (hsub k hk) hk' (hhash.trans hhash'.symm)
    exact ⟨k, hk, hhash, hd⟩

theorem Untangled.mono (hnodup : (cs.map (·.commitmentHash)).Nodup) (hsub : ∀ k ∈ ds, k ∈ cs) (hu : Untangled cs) : Untangled ds := by
  have hlists : ∀ x d, Lists ds x d → Lists cs x d := by
    intro x d hd
    obtain ⟨k, hk, hboth⟩ := hd
    exact ⟨k, hsub k hk, hboth⟩
  intro c hc h x hh hx hxh
  exact hu c (hc.mono hnodup hsub) h x (hlists c h hh) (hlists c x hx) (TransGen.mono hlists x h hxh)

theorem published_eq (hb : ∀ h k, p.commitmentByHash.get? h = some k ↔ k ∈ cs ∧ k.commitmentHash = h) : p.Published = Listed cs := by
  funext x
  simp only [Published, hb, Listed]

theorem dependsOn_eq (hb : ∀ h k, p.commitmentByHash.get? h = some k ↔ k ∈ cs ∧ k.commitmentHash = h) : p.DependsOn = Lists cs := by
  funext x d
  simp only [DependsOn, hb, Lists, and_assoc]

theorem Registry.finalized_iff (hr : Registry cs p) : h ∈ p.finalized ↔ Settled cs h := by
  rw [hr.tracks.finalized_iff, settled_iff, published_eq hr.byHash, dependsOn_eq hr.byHash]

theorem fresh_of_nodup {before after : List CommitmentArtifact}
    (hkeys : ((before ++ k :: after).map fun k => (k.shardId, k.needId)).Nodup)
    (hhashes : ((before ++ k :: after).map (·.commitmentHash)).Nodup) : Fresh before k := by
  rw [List.map_append, List.nodup_append] at hkeys hhashes
  constructor
  · intro k' hk'
    exact hkeys.2.2 _ (List.mem_map_of_mem hk') _ List.mem_cons_self
  · intro k' hk'
    exact hhashes.2.2 _ (List.mem_map_of_mem hk') _ List.mem_cons_self

end Graphs

theorem publishAll_append (cs : List CommitmentArtifact) (k : CommitmentArtifact) :
    publishAll (cs ++ [k]) = (publishCommitment k (publishAll cs)).2 := by
  rw [publishAll, List.foldl_append]
  rfl

section Orders

variable {order : List CommitmentArtifact}

/-- As long as no call raises, the registry is the one of the commitments published. -/
theorem registry_publishAll (hkeys : (order.map fun k => (k.shardId, k.needId)).Nodup) (hhashes : (order.map (·.commitmentHash)).Nodup)
    (hok : ∀ before k after, order = before ++ k :: after → Registry before (publishAll before) →
      ∃ b, (publishCommitment k (publishAll before)).1 = .ok b)
    {before after : List CommitmentArtifact} (hsplit : order = before ++ after) : Registry before (publishAll before) := by
  induction before using List.reverseRecOn generalizing after with
  | nil => exact registry_init
  | append_singleton before k ih =>
    have hsplit' : order = before ++ k :: after := by
      rw [hsplit, List.append_assoc]
      rfl
    have hr := ih hsplit'
    rw [hsplit'] at hkeys hhashes
    rw [publishAll_append]
    obtain hnext | ⟨c, he, _⟩ := hr.publish (fresh_of_nodup hkeys hhashes)
    · exact hnext.2
    · obtain ⟨b, hb⟩ := hok before k after hsplit' hr
      rw [hb] at he
      cases he

theorem publish_ok_of_untangled {before after : List CommitmentArtifact} {k : CommitmentArtifact}
    (hkeys : ((before ++ k :: after).map fun k => (k.shardId, k.needId)).Nodup)
    (hhashes : ((before ++ k :: after).map (·.commitmentHash)).Nodup) (hu : Untangled (before ++ k :: after))
    (hr : Registry before (publishAll before)) : (publishCommitment k (publishAll before)).1 = .ok true := by
  have hk := fresh_of_nodup hkeys hhashes
  obtain hnext | ⟨c, _, hg, h, x, hh, hx, hxh⟩ := hr.publish hk
  · exact hnext.1
  · have hsub : ∀ k' ∈ before ++ [k], k' ∈ before ++ k :: after := by
      intro k' hk'
      simp only [List.mem_append, List.mem_cons] at hk' ⊢
      grind
    have hu' := hu.mono hhashes hsub
    have hb := hr.byHash_register hk
    rw [published_eq hb, dependsOn_eq hb] at hg
    rw [dependsOn_eq hb] at hh hx hxh
    exact absurd hxh (hu' c (settled_iff.mpr hg) h x hh hx)

/-- The order that publishes a tangled commitment and then what it waits for. -/
theorem tangled_order {cs : List CommitmentArtifact} {c h : CommitmentArtifact} (hc : c ∈ cs) (hh : h ∈ cs) (hne : h ≠ c) :
    ((cs.erase c).erase h ++ [c, h]).Perm cs := by
  have hh' : h ∈ cs.erase c := (List.mem_erase_of_ne hne).mpr hh
  have hfront : ((cs.erase c).erase h ++ [c, h]).Perm (c :: h :: (cs.erase c).erase h) := List.perm_append_comm
  exact hfront.trans (((List.perm_cons_erase hh').symm.cons c).trans (List.perm_cons_erase hc).symm)

/-- Published last, the two commitments of a tangle make a cascade stop. -/
theorem publish_stops_of_tangled {others : List CommitmentArtifact} {c h : CommitmentArtifact} {x : String}
    (hkeys : ((others ++ [c, h]).map fun k => (k.shardId, k.needId)).Nodup)
    (hhashes : ((others ++ [c, h]).map (·.commitmentHash)).Nodup) (hr : Registry others (publishAll others))
    (hg : Grounded (Listed (others ++ [c] ++ [h])) (Lists (others ++ [c] ++ [h])) c.commitmentHash)
    (hdep : h.commitmentHash ∈ c.dependencies) (hx : x ∈ c.dependencies)
    (hxh : TransGen (Lists (others ++ [c] ++ [h])) x h.commitmentHash)
    (hok : Registry (others ++ [c]) (publishAll (others ++ [c]))) :
    ∃ e, (publishCommitment h (publishAll (others ++ [c]))).1 = .error e := by
  have hfc : Fresh others c := fresh_of_nodup hkeys hhashes
  have hfh : Fresh (others ++ [c]) h := by
    refine @fresh_of_nodup h (others ++ [c]) [] ?_ ?_
    · rw [List.append_assoc]
      exact hkeys
    · rw [List.append_assoc]
      exact hhashes
  have hblocked : ∃ d ∈ c.dependencies, d ∉ (publishAll others).finalized := by
    refine ⟨h.commitmentHash, hdep, ?_⟩
    intro hin
    obtain ⟨k, hk, hhash⟩ := (hr.finalized_iff.mp hin).1
    exact hfh.hash k (List.mem_append_left _ hk) hhash
  obtain ⟨hstate, hpending⟩ := hr.publish_waits hfc hblocked
  rw [← hstate, ← publishAll_append] at hpending
  have hb := hok.byHash_register hfh
  have hcin : c ∈ others ++ [c] ++ [h] := by simp
  rw [← published_eq hb, ← dependsOn_eq hb] at hg
  rw [← dependsOn_eq hb] at hxh
  refine hok.publish_stops hfh hpending hg ?_ ?_ hxh
  · rw [dependsOn_eq hb]
    exact ⟨c, hcin, rfl, hdep⟩
  · rw [dependsOn_eq hb]
    exact ⟨c, hcin, rfl, hx⟩

/-- Where dependencies lead from each layer to the one below, nothing is tangled. -/
theorem untangled_of_layers {cs : List CommitmentArtifact} (layer : String → Nat)
    (hlayer : ∀ c d, Lists cs c d → layer c = layer d + 1) : Untangled cs := by
  have hless (a b : String) (hab : TransGen (Lists cs) a b) : layer b < layer a := by
    induction hab with
    | single hd =>
      have hstep := hlayer _ _ hd
      omega
    | tail _ hd ih =>
      have hstep := hlayer _ _ hd
      omega
  intro c _ h x hh hx hxh
  have hbelow := hless x h hxh
  have hh' := hlayer c h hh
  have hx' := hlayer c x hx
  omega

/-- Whatever the order of publication, no call raises and each leaves finalized exactly
the commitments that are settled so far, if and only if the commitments are untangled. -/
theorem finalizes_settled_iff_untangled (cs : List CommitmentArtifact)
    (hkeys : (cs.map fun k => (k.shardId, k.needId)).Nodup) (hhashes : (cs.map (·.commitmentHash)).Nodup) :
    (∀ order : List CommitmentArtifact, order.Perm cs →
      (∀ before k after, order = before ++ k :: after →
        (∃ published, (publishCommitment k (publishAll before)).1 = .ok published) ∧
          ∀ h, h ∈ (publishCommitment k (publishAll before)).2.finalized ↔ Settled (before ++ [k]) h) ∧
        ∀ h, h ∈ (publishAll order).finalized ↔ Settled cs h) ↔ Untangled cs := by
  constructor
  · intro hall c hc h x hh hx hxh
    have hg := settled_iff.mp hc
    obtain ⟨kc, hkc, rfl, hdep⟩ := hh
    obtain ⟨kh, hkh, rfl⟩ := (hg.next ⟨kc, hkc, rfl, hdep⟩).present
    have hxdep : x ∈ kc.dependencies := by
      obtain ⟨k, hk, hhash, hxk⟩ := hx
      exact List.inj_on_of_nodup_map hhashes hk hkc hhash ▸ hxk
    have hne : kh ≠ kc := by
      intro heq
      rw [heq] at hdep
      exact hg.acyclic (.single ⟨kc, hkc, rfl, hdep⟩)
    have hperm := tangled_order hkc hkh hne
    generalize (cs.erase kc).erase kh = others at hperm
    have hkeys' := (hperm.map fun k => (k.shardId, k.needId)).nodup_iff.mpr hkeys
    have hhashes' := (hperm.map (·.commitmentHash)).nodup_iff.mpr hhashes
    have hok := (hall _ hperm).1
    have hmem (k : CommitmentArtifact) : k ∈ others ++ [kc] ++ [kh] ↔ k ∈ cs := by
      rw [List.append_assoc]
      exact hperm.mem_iff
    have hraise (before after : List CommitmentArtifact) (hsplit : others ++ [kc, kh] = before ++ after) :
        Registry before (publishAll before) :=
      registry_publishAll hkeys' hhashes' (fun before k after hsplit _ => (hok before k after hsplit).1) hsplit
    have hsplit : others ++ [kc, kh] = others ++ [kc] ++ [kh] := (List.append_assoc others [kc] [kh]).symm
    rw [← listed_congr hmem, ← lists_congr hmem] at hg
    rw [← lists_congr hmem] at hxh
    obtain ⟨e, he⟩ := publish_stops_of_tangled hkeys' hhashes' (hraise _ _ rfl) hg hdep hxdep hxh (hraise _ _ hsplit)
    obtain ⟨⟨b, hb⟩, _⟩ := hok (others ++ [kc]) kh [] hsplit
    rw [he] at hb
    cases hb
  · intro hu order hperm
    have hkeys' := (hperm.map fun k => (k.shardId, k.needId)).nodup_iff.mpr hkeys
    have hhashes' := (hperm.map (·.commitmentHash)).nodup_iff.mpr hhashes
    have hu' : Untangled order := hu.mono hhashes fun k hk => hperm.mem_iff.mp hk
    have hok : ∀ before k after, order = before ++ k :: after → Registry before (publishAll before) →
        ∃ b, (publishCommitment k (publishAll before)).1 = .ok b := by
      intro before k after hsplit hr
      rw [hsplit] at hkeys' hhashes' hu'
      exact ⟨true, publish_ok_of_untangled hkeys' hhashes' hu' hr⟩
    refine ⟨?_, ?_⟩
    · intro before k after hsplit
      have hnext : order = before ++ [k] ++ after := by
        rw [hsplit, List.append_assoc]
        rfl
      have hr : Registry (before ++ [k]) (publishAll (before ++ [k])) := registry_publishAll hkeys' hhashes' hok hnext
      rw [publishAll_append] at hr
      exact ⟨hok before k after hsplit (registry_publishAll hkeys' hhashes' hok hsplit), fun h => hr.finalized_iff⟩
    · intro h
      have hr : Registry order (publishAll order) := registry_publishAll hkeys' hhashes' hok (List.append_nil order).symm
      rw [hr.finalized_iff]
      exact settled_congr fun k => hperm.mem_iff

theorem finalizes_settled_diamond :
    let cs : List CommitmentArtifact := [⟨3, "n", "rd", 4, "D", ["B", "C"]⟩, ⟨1, "n", "rb", 2, "B", ["A"]⟩,
      ⟨2, "n", "rc", 3, "C", ["A"]⟩, ⟨0, "n", "ra", 1, "A", []⟩]
    ∀ order : List CommitmentArtifact, order.Perm cs →
      (∀ before k after, order = before ++ k :: after →
        (∃ published, (publishCommitment k (publishAll before)).1 = .ok published) ∧
          ∀ h, h ∈ (publishCommitment k (publishAll before)).2.finalized ↔ Settled (before ++ [k]) h) ∧
        ∀ h, h ∈ (publishAll order).finalized ↔ Settled cs h := by
  intro cs
  refine (finalizes_settled_iff_untangled cs (by decide) (by decide)).mpr ?_
  refine untangled_of_layers (fun x => if x = "D" then 2 else if x = "A" then 0 else 1) ?_
  intro c d hd
  obtain ⟨k, hk, rfl, hd⟩ := hd
  have hall : ∀ k ∈ cs, ∀ d ∈ k.dependencies, (if k.commitmentHash = "D" then 2 else if k.commitmentHash = "A" then 0 else 1) =
      (if d = "D" then 2 else if d = "A" then 0 else 1) + 1 := by
    decide
  exact hall k hk d hd

/-- The commitment `C` waits for `A` and for `B`, and `B` waits for `A`: when `A` comes
last, the cascade of `B` finalizes `C` before the loop over those that wait for `A` gets to it. -/
theorem shortcut_keyError :
    let a : CommitmentArtifact := ⟨0, "n", "ra", 1, "A", []⟩
    let b : CommitmentArtifact := ⟨1, "n", "rb", 2, "B", ["A"]⟩
    let c : CommitmentArtifact := ⟨2, "n", "rc", 3, "C", ["A", "B"]⟩
    ([b, c, a].map fun k => (k.shardId, k.needId)).Nodup ∧ ([b, c, a].map (·.commitmentHash)).Nodup ∧
      (publishCommitment a (publishAll [b, c])).1 = .error (.keyError "C") := by
  decide +kernel

end Orders

end CommitmentProtocol

end AgentNetwork.Sharding
