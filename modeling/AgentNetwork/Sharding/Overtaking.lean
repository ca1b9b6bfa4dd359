import AgentNetwork.Sharding.Publication

namespace AgentNetwork.Sharding

open Relational Relation Grounding

namespace CommitmentProtocol

section Stopping

variable {p p' : CommitmentProtocol} {k : CommitmentArtifact} {c h x y : String} {n : Nat}

theorem visitWaiting_append (cascade : String → CommitmentProtocol → Except CascadeError Unit × CommitmentProtocol)
    (xs ys : List String) (p : CommitmentProtocol) : visitWaiting cascade h (xs ++ ys) p =
      match visitWaiting cascade h xs p with
      | (.ok (), q) => visitWaiting cascade h ys q
      | (.error e, q) => (.error e, q) := by
  induction xs generalizing p with
  | nil => rfl
  | cons a rest ih =>
    rw [List.cons_append, visitWaiting, visitWaiting]
    split
    next => rfl
    next s hs =>
      dsimp only
      generalize tryFinalize cascade a _ = r
      obtain ⟨r, q⟩ := r
      cases r with
      | ok u => exact ih q
      | error e => rfl

/-- While only `c` is due a visit, everything grounded that does not depend on `c` is finalized. -/
theorem Tracks.finalized_apart (ht : Tracks p fun d z => d = h ∧ z = c) (hg : Grounded p.Published p.DependsOn y)
    (hy : ¬ReflTransGen p.DependsOn y c) : y ∈ p.finalized := by
  induction hg with
  | @intro y hp _ ih =>
    by_contra hnot
    obtain ⟨s, hs⟩ := (ht.waits y).mpr ⟨hp, hnot⟩
    have hall : ∀ d, p.DependsOn y d → d ∈ p.finalized := fun d hd => ih d hd fun hdc => hy (.head hd hdc)
    obtain ⟨_, ⟨_, hyc⟩, _⟩ := ht.last y s hs hall
    exact hy (hyc ▸ .refl)

/-- A commitment with a dependency finalized after `h` is finalized before `h` visits it. -/
theorem Tracks.finalized_early (ht : Tracks p fun d z => d = h ∧ z = c) (hg : Grounded p.Published p.DependsOn c)
    {early later : List String} (hl : p.finalized.elems = early ++ h :: later)
    (hx : p.DependsOn c x) (hxh : x ≠ h) (hearly : x ∉ early) : c ∈ p.finalized := by
  by_contra hnot
  obtain ⟨s, hs⟩ := (ht.waits c).mpr ⟨hg.present, hnot⟩
  have hall : ∀ d, p.DependsOn c d → d ∈ p.finalized := by
    intro d hd
    refine ht.finalized_apart (hg.next hd) fun hdc => ?_
    exact hg.acyclic (TransGen.head' hd hdc)
  obtain ⟨h', ⟨rfl, _⟩, before, after, helems, hafter⟩ := ht.last c s hs hall
  have hmem : x ∈ p.finalized.elems := hall x hx
  have hbefore : before = early := by
    have hnodup := p.finalized.nodup
    rw [helems, List.nodup_append] at hnodup
    have hnot : h' ∉ before := fun hin => hnodup.2.2 h' hin h' List.mem_cons_self rfl
    have hnot' : h' ∉ after := (List.nodup_cons.mp hnodup.2.1).1
    exact ((List.append_cons_inj_of_notMem hnot hnot').mp (helems.symm.trans hl)).1
  rw [helems, hbefore] at hmem
  rcases List.mem_append.mp hmem with hin | hin
  · exact hearly hin
  · rcases List.mem_cons.mp hin with hin | hin
    · exact hxh hin
    · exact hafter x hin hx

/-- A loop that visits a tangled commitment last does not get to its end. -/
theorem visitWaiting_stops {ws early : List String} (hn : p.pending.entries.length ≤ n)
    (hv : Visits p (fun _ _ => False) h (ws ++ [c])) (hg : Grounded p.Published p.DependsOn c)
    (hl : p.finalized.elems = early ++ [h]) (hx : p.DependsOn c x) (hxh : x ≠ h) (hearly : x ∉ early) :
    ∃ e, (visitWaiting (cascadeFinalize n) h (ws ++ [c]) p).1 = .error e := by
  have hws : c ∉ ws := fun hin => (List.nodup_append.mp hv.nodup).2.2 c hin c List.mem_cons_self rfl
  have hfirst : Visits p (fun d y => d = h ∧ y = c) h ws := by
    refine ⟨hv.tracks.congr fun d y => ?_, (List.nodup_append.mp hv.nodup).1, ?_, ?_, ?_⟩
    · simp only [false_or, List.mem_append, List.mem_singleton]
      constructor
      · intro hboth
        exact hboth.2.symm.imp (fun hy => ⟨hboth.1, hy⟩) fun hy => ⟨hboth.1, hy⟩
      · intro heither
        exact heither.elim (fun hboth => ⟨hboth.1, Or.inr hboth.2⟩) fun hboth => ⟨hboth.1, Or.inl hboth.2⟩
    · intro y hy hboth
      exact hws (hboth.2 ▸ hy)
    · exact fun y hy => hv.dependsOn y (List.mem_append_left _ hy)
    · exact fun y hy => hv.overtaken y (List.mem_append_left _ hy)
  have hend := visitWaiting_ends (cascadeFinalize_sound n) hn hfirst
  rw [visitWaiting_append]
  generalize visitWaiting (cascadeFinalize n) h ws p = r at hend ⊢
  obtain ⟨r, q⟩ := r
  cases r with
  | error e => exact ⟨e, rfl⟩
  | ok u =>
    obtain ⟨ht, he, _⟩ := hend
    obtain ⟨later, hlater⟩ := he.finalized
    have hc : c ∈ q.finalized := by
      have helems : q.finalized.elems = early ++ h :: later := by
        rw [hlater, hl, List.append_assoc]
        rfl
      refine ht.finalized_early ?_ helems ?_ hxh hearly
      · rw [he.published, he.dependsOn]
        exact hg
      · rw [he.dependsOn]
        exact hx
    have hnone : q.pending.get? c = none := by
      cases hs : q.pending.get? c with
      | none => rfl
      | some s => exact absurd hc ((ht.waits c).mp ⟨s, hs⟩).2
    refine ⟨.keyError c, ?_⟩
    simp only [visitWaiting, hnone]

theorem Tracks.grounded_register (ht : Tracks p fun _ _ => False) (hfresh : p.commitmentByHash.get? k.commitmentHash = none)
    (hx : x ∈ p.finalized) (hxy : ReflTransGen (register k p).DependsOn x y) : Grounded p.Published p.DependsOn y := by
  induction hxy with
  | refl => exact ht.grounded x hx
  | @tail a b _ hab ih =>
    exact ih.next ((dependsOn_register (ih.present.ne hfresh)).mp hab)

/-- All that a grounded commitment depends on is finalized by the time it is published. -/
theorem Tracks.ready (ht : Tracks p fun _ _ => False) (hfresh : p.commitmentByHash.get? k.commitmentHash = none)
    (hg : Grounded (register k p).Published (register k p).DependsOn k.commitmentHash) : ∀ d ∈ k.dependencies, d ∈ p.finalized := by
  intro d hd
  have hself : (register k p).DependsOn k.commitmentHash d := dependsOn_register_self.mpr hd
  refine ht.finalized_iff.mpr ((hg.next hself).restrict ?_ ?_)
  · intro b hdb
    have hb : (register k p).Published b := (hg.trans (TransGen.head' hself hdb)).present
    refine (published_register.mp hb).resolve_left ?_
    intro heq
    exact hg.acyclic (TransGen.head' hself (heq ▸ hdb))
  · intro a b ha hab
    exact (dependsOn_register (ha.ne hfresh)).mpr hab

/-- A publication stops whose cascade overtakes the commitment that became pending last. -/
theorem Registry.publish_stops {published : List CommitmentArtifact} (hr : Registry published p) (hk : Fresh published k)
    {l : List (String × ListSet String)} {s : ListSet String} (hl : p.pending.entries = l ++ [(c, s)])
    (hg : Grounded (register k p).Published (register k p).DependsOn c) (hh : (register k p).DependsOn c k.commitmentHash)
    (hx : (register k p).DependsOn c x) (hxh : TransGen (register k p).DependsOn x k.commitmentHash) :
    ∃ e, (publishCommitment k p).1 = .error e := by
  have ht := hr.tracks
  have hfresh := hr.freshHash hk
  have hnot : k.commitmentHash ∉ (register k p).finalized := ht.notFinalized hfresh
  have hch : c ≠ k.commitmentHash := by
    intro heq
    rw [heq] at hg hh
    exact hg.acyclic (.single hh)
  have hne : x ≠ k.commitmentHash := by
    intro heq
    rw [heq] at hxh
    exact (hg.next hh).acyclic hxh
  have hready := ht.ready hfresh (hg.next hh)
  have hall : allFinalized k (register k p) = true := by
    rw [allFinalized, List.all_eq_true]
    intro d hd
    exact decide_eq_true (hready d hd)
  have hentries : (register k p).pending = p.pending := by
    have hnil : (pendingDeps k p).elems = [] := by
      rw [List.eq_nil_iff_forall_not_mem]
      intro d hd
      obtain ⟨hd, hd'⟩ := mem_pendingDeps.mp hd
      exact hd' (hready d hd)
    exact if_pos hnil
  have hwaiting : ∃ ws, waiting k.commitmentHash (finish k.commitmentHash (register k p)) = ws ++ [c] := by
    have hs : k.commitmentHash ∈ s := by
      have hget : p.pending.get? c = some s := by
        rw [Table.get?_eq_some_iff, hl]
        exact List.mem_append_right _ List.mem_cons_self
      exact (ht.deps c s hget _).mpr ⟨(dependsOn_register hch).mp hh, Or.inl hnot⟩
    have hkeep : ((p.pending.erase k.commitmentHash).entries.filter fun e => k.commitmentHash ∈ e.2).map Prod.fst =
        ((l.filter fun e => e.1 ≠ k.commitmentHash).filter fun e => k.commitmentHash ∈ e.2).map Prod.fst ++ [c] := by
      simp [Table.erase, hl, hch, hs]
    rw [waiting, finish, hentries]
    exact ⟨_, hkeep⟩
  obtain ⟨ws, hws⟩ := hwaiting
  have hv := visits_waiting (ht.registerFinal hfresh hready) fun _ hdue => hdue
  rw [hws] at hv
  have hless := Table.length_erase_le (register k p).pending k.commitmentHash
  have hstops := visitWaiting_stops hless hv hg (ListSet.elems_add_of_not_mem hnot) hx hne (fun hin => ?_)
  · obtain ⟨e, he⟩ := hstops
    rw [publishCommitment, if_neg (Bool.eq_false_iff.mp (hr.freshKey hk))]
    dsimp only
    rw [tryFinalize_of_published hnot get?_byHash_self, if_pos hall, cascadeFinalize, hws]
    generalize visitWaiting _ _ _ _ = r at he ⊢
    obtain ⟨r, q⟩ := r
    obtain rfl : r = .error e := he
    exact ⟨e, rfl⟩
  · have hpublished := (ht.grounded_register hfresh hin hxh.to_reflTransGen).present
    exact hpublished.ne hfresh rfl

/-- The commitment published last is the last of the pending ones, if it has to wait. -/
theorem Registry.publish_waits {published : List CommitmentArtifact} (hr : Registry published p) (hk : Fresh published k)
    (hblocked : ∃ d ∈ k.dependencies, d ∉ p.finalized) : (publishCommitment k p).2 = register k p ∧
      (register k p).pending.entries = p.pending.entries ++ [(k.commitmentHash, pendingDeps k p)] := by
  have hfresh := hr.freshHash hk
  have hnot : k.commitmentHash ∉ (register k p).finalized := hr.tracks.notFinalized hfresh
  have hall : ¬allFinalized k (register k p) = true := by
    obtain ⟨d, hd, hd'⟩ := hblocked
    rw [allFinalized, List.all_eq_true]
    intro hall
    exact hd' (of_decide_eq_true (hall d hd))
  constructor
  · rw [publishCommitment, if_neg (Bool.eq_false_iff.mp (hr.freshKey hk))]
    dsimp only
    rw [tryFinalize_of_published hnot get?_byHash_self, if_neg hall]
  · have hne : (pendingDeps k p).elems ≠ [] := by
      obtain ⟨d, hd⟩ := hblocked
      exact List.ne_nil_of_mem (mem_pendingDeps.mpr hd)
    have hpending : (register k p).pending = p.pending.upsert k.commitmentHash (pendingDeps k p) := if_neg hne
    rw [hpending, Table.upsert, dif_pos (hr.tracks.notPending hfresh)]
    rfl

end Stopping

end CommitmentProtocol

end AgentNetwork.Sharding
