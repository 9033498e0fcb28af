import Invalidation.Proofs.Integration.Difference

/-! How far the comparison of facts decides that they match. It counts edges instead of looking for
lost ones, so an edge that is repeated can stand in for one that is lost. Facts that repeat equally
many edges are compared as they should be.
-/

namespace Invalidation.Fact

/-- How many edges of a fact repeat an earlier one. -/
def repeats (fact : Fact) : Nat := fact.dependsOn.length - fact.dependsOn.eraseDups.length

/-- The edges of an old fact that a fact has no more, each once. -/
def lost (fact old : Fact)
    : List Key :=
  old.dependsOn.eraseDups.filter (· ∉ fact.dependsOn)

variable {fact old older : Fact}

theorem length_dependsOn (fact : Fact)
    : fact.dependsOn.length = fact.dependsOn.eraseDups.length + fact.repeats := by
  have atMost : fact.dependsOn.eraseDups.length ≤ fact.dependsOn.length :=
    (nodup_eraseDups fact.dependsOn).length_le_of_subset fun _ => List.mem_eraseDups.1
  rw [repeats, Nat.add_sub_cancel' atMost]

theorem length_lost_eq_zero_iff
    : (fact.lost old).length = 0 ↔ old.dependsOn ⊆ fact.dependsOn := by
  simp [lost, List.filter_eq_nil_iff, List.subset_def]

/-- A fact without new edges has those of the old one that it did not lose. -/
theorem length_eraseDups_of_subset (included : fact.dependsOn ⊆ old.dependsOn)
    : old.dependsOn.eraseDups.length
      = fact.dependsOn.eraseDups.length + (fact.lost old).length := by
  have kept
      : (old.dependsOn.eraseDups.filter (· ∈ fact.dependsOn)).Perm fact.dependsOn.eraseDups := by
    refine (List.perm_ext_iff_of_nodup ((nodup_eraseDups _).filter _) (nodup_eraseDups _)).2 ?_
    intro key
    rw [List.mem_filter, List.mem_eraseDups, List.mem_eraseDups, decide_eq_true_iff]
    exact and_iff_right_of_imp (@included key)
  rw [List.length_eq_length_filter_add (· ∈ fact.dependsOn), kept.length_eq, lost]
  simp

/-- As many edges are left exactly if the new repetitions make up for the lost edges. -/
theorem length_eq_iff_of_subset (included : fact.dependsOn ⊆ old.dependsOn)
    : fact.dependsOn.length = old.dependsOn.length
      ↔ fact.repeats = old.repeats + (fact.lost old).length := by
  have here := fact.length_dependsOn
  have there := old.length_dependsOn
  have both := length_eraseDups_of_subset included
  omega

/-- The comparison as it goes: it looks at the roles, the fingerprints and the number of edges, and
looks up every edge in the old fact.
-/
theorem sameContentAs_eq_true_iff
    : fact.sameContentAs old = true
      ↔ fact.role = old.role
        ∧ Fingerprint.optionsAgree fact.fingerprint old.fingerprint = true
        ∧ fact.dependsOn.length = old.dependsOn.length
        ∧ fact.dependsOn ⊆ old.dependsOn := by
  simp only [sameContentAs, Bool.and_eq_true, decide_eq_true_eq, List.all_eq_true,
    List.contains_iff_mem, and_assoc, List.subset_def]

/-- Facts match if their roles are the same, their fingerprints agree, and no edge is new or lost. -/
theorem matches_iff
    : fact.Matches old
      ↔ fact.role = old.role
        ∧ Fingerprint.optionsAgree fact.fingerprint old.fingerprint = true
        ∧ fact.dependsOn ⊆ old.dependsOn
        ∧ (fact.lost old).length = 0 := by
  rw [Fingerprint.optionsAgree_iff, length_lost_eq_zero_iff]
  constructor
  · intro same
    exact ⟨same.role, same.fingerprint, fun key => (same.edges key).1,
      fun key => (same.edges key).2⟩
  · intro given
    obtain ⟨role, fingerprint, included, includes⟩ := given
    exact ⟨role, fingerprint, fun key => ⟨@included key, @includes key⟩⟩

theorem Matches.symm (same : fact.Matches old) : old.Matches fact where
  role := same.role.symm
  fingerprint :=
    same.fingerprint.imp And.symm fun ⟨token, here, there⟩ => ⟨token, there, here⟩
  edges := fun target => (same.edges target).symm

/-- The comparison lets a fact repeat as many edges as the old one repeats and the fact lost together.
-/
theorem sameContentAs_iff_balanced
    : fact.sameContentAs old = true
      ↔ fact.role = old.role
        ∧ Fingerprint.optionsAgree fact.fingerprint old.fingerprint = true
        ∧ fact.dependsOn ⊆ old.dependsOn
        ∧ fact.repeats = old.repeats + (fact.lost old).length := by
  rw [sameContentAs_eq_true_iff]
  refine and_congr_right fun _ => and_congr_right fun _ => ?_
  rw [and_comm]
  exact and_congr_right length_eq_iff_of_subset

/-- Where equally many edges are repeated, facts have the same content exactly if they match. -/
theorem sameContentAs_iff_matches (equally : fact.repeats = old.repeats)
    : fact.sameContentAs old = true ↔ fact.Matches old := by
  rw [sameContentAs_iff_balanced, matches_iff, equally, Nat.left_eq_add]

/-- Where a fact repeats no edge, it has the same content exactly if it matches and the old one
repeats none either.
-/
theorem sameContentAs_iff_of_repeats_eq_zero (single : fact.repeats = 0)
    : fact.sameContentAs old = true ↔ fact.Matches old ∧ old.repeats = 0 := by
  have none : 0 = old.repeats + (fact.lost old).length
      ↔ (fact.lost old).length = 0 ∧ old.repeats = 0 := by
    omega
  rw [sameContentAs_iff_balanced, matches_iff, single, none]
  simp only [and_assoc]

theorem sameContentAs_trans (first : fact.sameContentAs old = true)
    (second : old.sameContentAs older = true)
    : fact.sameContentAs older = true := by
  rw [sameContentAs_eq_true_iff, Fingerprint.optionsAgree_iff] at first second ⊢
  obtain ⟨role, fingerprint, sameLength, included⟩ := first
  obtain ⟨oldRole, oldFingerprint, oldLength, oldIncluded⟩ := second
  refine ⟨role.trans oldRole, ?_, sameLength.trans oldLength,
    List.Subset.trans included oldIncluded⟩
  rcases fingerprint with ⟨absent, oldAbsent⟩ | ⟨token, here, there⟩
  · rcases oldFingerprint with ⟨-, olderAbsent⟩ | ⟨token, present, -⟩
    · exact .inl ⟨absent, olderAbsent⟩
    · cases oldAbsent.symm.trans present
  · rcases oldFingerprint with ⟨oldAbsent, -⟩ | ⟨other, oldHere, olderHere⟩
    · cases oldAbsent.symm.trans there
    · obtain rfl : token = other := by
        rw [there] at oldHere
        exact Fingerprint.digest.inj (Option.some.inj oldHere)
      exact .inr ⟨token, here, olderHere⟩

/-- The comparison of two facts holds exactly if their roles are the same, their fingerprints agree,
the edges of the first are among those of the second, and the first repeats as many edges as the
second repeats and the first lost together. So it decides whether they match, in either direction,
where both repeat equally many edges; where the first repeats none, it holds if they match and the
second repeats none either. It can be chained in any case.
-/
theorem content_compared_up_to_repeats (fact old : Fact)
    : (fact.sameContentAs old = true
        ↔ fact.role = old.role
          ∧ ((fact.fingerprint = none ∧ old.fingerprint = none)
            ∨ ∃ token,
                fact.fingerprint = some (.digest token) ∧ old.fingerprint = some (.digest token))
          ∧ fact.dependsOn ⊆ old.dependsOn
          ∧ fact.repeats = old.repeats + (fact.lost old).length)
      ∧ (fact.repeats = old.repeats
          → (fact.sameContentAs old = true ↔ fact.Matches old)
            ∧ fact.sameContentAs old = old.sameContentAs fact)
      ∧ (fact.repeats = 0 → (fact.sameContentAs old = true ↔ fact.Matches old ∧ old.repeats = 0))
      ∧ ∀ older : Fact,
          fact.sameContentAs old = true
          → old.sameContentAs older = true
          → fact.sameContentAs older = true := by
  rw [← Fingerprint.optionsAgree_iff]
  refine ⟨sameContentAs_iff_balanced, fun equally => ⟨sameContentAs_iff_matches equally, ?_⟩,
    sameContentAs_iff_of_repeats_eq_zero, fun older => sameContentAs_trans⟩
  rw [Bool.eq_iff_iff, sameContentAs_iff_matches equally, sameContentAs_iff_matches equally.symm]
  exact ⟨Matches.symm, Matches.symm⟩

/-- Two facts that each repeat one edge, not the same one, have the same content. -/
theorem sameContent_of_other_repetition
    : let first := Key.interface (.topLevel "b")
      let second := Key.interface (.topLevel "c")
      let fact : Fact :=
        ⟨.interface (.topLevel "a"), some (.digest "f1"), .definition, [first, first, second]⟩
      let old : Fact := { fact with dependsOn := [second, first, second] }
      fact.repeats = old.repeats ∧ fact.Matches old ∧ fact.sameContentAs old = true := by
  intro first second fact old
  have equally : fact.repeats = old.repeats := by decide
  have same : fact.Matches old := matches_iff.2 (by decide)
  exact ⟨equally, same, ((content_compared_up_to_repeats fact old).2.1 equally).1.2 same⟩

/-- A fact that repeats an edge in the place of another one is taken for unchanged, although that
other edge is lost. The other way round a change is seen.
-/
theorem lost_edge_hidden_by_repetition
    : ¬∀ fact old : Fact,
        (fact.sameContentAs old = true ↔ fact.Matches old)
        ∧ fact.sameContentAs old = old.sameContentAs fact := by
  intro decides
  let first := Key.interface (.topLevel "b")
  let second := Key.interface (.topLevel "c")
  let fact : Fact := ⟨.interface (.topLevel "a"), none, .definition, [first, first]⟩
  let old : Fact := { fact with dependsOn := [first, second] }
  have unchanged : fact.sameContentAs old = true := by decide
  have kept : second ∈ fact.dependsOn :=
    ((((decides fact old).1.1 unchanged).edges second).2 (by decide))
  exact absurd kept (by decide)

end Invalidation.Fact
