/-! Sequences of steps that may fail: they succeed exactly when each step does, and fail as one of
the steps does.
-/

namespace Invalidation

variable {ε ε' α β : Type}

theorem bind_eq_ok {step : Except ε α} {rest : α → Except ε β} {result : β}
    : (step >>= rest) = .ok result ↔ ∃ value, step = .ok value ∧ rest value = .ok result := by
  cases step <;> simp [bind, Except.bind]

theorem bind_eq_error {step : Except ε α} {rest : α → Except ε β} {cause : ε}
    : (step >>= rest) = .error cause
      ↔ step = .error cause ∨ ∃ value, step = .ok value ∧ rest value = .error cause := by
  cases step <;> simp [bind, Except.bind]

theorem pure_eq_ok {value result : α}
    : (pure value : Except ε α) = .ok result ↔ value = result := by
  simp [pure, Except.pure]

theorem map_eq_ok {step : Except ε α} {f : α → β} {result : β}
    : step.map f = .ok result ↔ ∃ value, step = .ok value ∧ f value = result := by
  cases step <;> simp [Except.map]

theorem mapError_ok {tell : ε → ε'} {value : α}
    : (Except.ok value).mapError tell = .ok value :=
  rfl

theorem mapError_eq_ok {tell : ε → ε'} {step : Except ε α} {value : α}
    : step.mapError tell = .ok value ↔ step = .ok value := by
  cases step with
  | error cause => exact iff_of_false nofun nofun
  | ok found => rw [mapError_ok, Except.ok.injEq, Except.ok.injEq]

theorem isOk_eq_false_iff {answer : Except ε α}
    : answer.isOk = false ↔ ∃ cause, answer = .error cause := by
  cases answer <;> simp [Except.isOk, Except.toBool]

theorem toOption_eq_some_iff {answer : Except ε α} {value : α}
    : answer.toOption = some value ↔ answer = .ok value := by
  cases answer <;> simp [Except.toOption]

/-- Steps that succeed under a condition, each with a value of its own, succeed together if all the
conditions hold; by induction on the list.
-/
theorem mapM_eq_ok_iff {step : α → Except ε β} {value : α → β} {condition : α → Prop}
    {list : List α} {results : List β}
    (each
      : ∀ x ∈ list, ∀ result, step x = .ok result ↔ condition x ∧ value x = result)
    : list.mapM step = .ok results ↔ (∀ x ∈ list, condition x) ∧ list.map value = results := by
  induction list generalizing results with
  | nil => simp [pure_eq_ok]
  | cons head tail ih =>
      rw [List.forall_mem_cons] at each
      simp only [List.mapM_cons, bind_eq_ok, pure_eq_ok, each.1, ih each.2, List.forall_mem_cons,
        List.map_cons]
      constructor
      · rintro ⟨_, ⟨first, rfl⟩, _, ⟨later, rfl⟩, rfl⟩
        exact ⟨⟨first, later⟩, rfl⟩
      · rintro ⟨⟨first, later⟩, rfl⟩
        exact ⟨_, ⟨first, rfl⟩, _, ⟨later, rfl⟩, rfl⟩

theorem mapM_eq_ok {step : α → Except ε β} {value : α → β} {list : List α}
    (each : ∀ x ∈ list, step x = .ok (value x))
    : list.mapM step = .ok (list.map value) := by
  have always (x) (member : x ∈ list) (result) : step x = .ok result ↔ True ∧ value x = result := by
    rw [each x member, Except.ok.injEq, true_and]
  exact (mapM_eq_ok_iff always).2 ⟨fun _ _ => trivial, rfl⟩

/-- Steps that succeed or fail each by itself fail together as the first one of them does, by induction
on the list.
-/
theorem mapM_eq_of_find? {step : α → Except ε β} (value : α → β) (cause : α → ε) (fails : α → Bool)
    {list : List α}
    (each : ∀ x ∈ list, step x = if fails x then .error (cause x) else .ok (value x))
    : list.mapM step
      = match list.find? fails with
        | none => .ok (list.map value)
        | some x => .error (cause x) := by
  induction list with
  | nil => rfl
  | cons head tail ih =>
      rw [List.forall_mem_cons] at each
      rw [List.mapM_cons, each.1, ih each.2, List.find?_cons]
      cases fails head with
      | true => rfl
      | false => cases tail.find? fails <;> rfl

/-- What steps give together, one of them gives, by induction on the list. -/
theorem exists_of_mem_mapM {step : α → Except ε β} {list : List α} {results : List β}
    (done : list.mapM step = .ok results) {result : β} (member : result ∈ results)
    : ∃ x ∈ list, step x = .ok result := by
  induction list generalizing results with
  | nil =>
      rw [List.mapM_nil, pure_eq_ok] at done
      rw [← done] at member
      cases member
  | cons head tail ih =>
      rw [List.mapM_cons] at done
      obtain ⟨first, headDone, rest⟩ := bind_eq_ok.1 done
      obtain ⟨others, tailDone, same⟩ := bind_eq_ok.1 rest
      rw [← pure_eq_ok.1 same] at member
      rcases List.mem_cons.1 member with rfl | later
      · exact ⟨head, List.mem_cons_self, headDone⟩
      · obtain ⟨x, known, found⟩ := ih tailDone later
        exact ⟨x, List.mem_cons_of_mem _ known, found⟩

/-- Steps that succeed together succeed each, by induction on the list. -/
theorem exists_mem_of_mapM {step : α → Except ε β} {list : List α} {results : List β}
    (done : list.mapM step = .ok results) {x : α} (member : x ∈ list)
    : ∃ result ∈ results, step x = .ok result := by
  induction list generalizing results with
  | nil => cases member
  | cons head tail ih =>
      rw [List.mapM_cons] at done
      obtain ⟨first, headDone, rest⟩ := bind_eq_ok.1 done
      obtain ⟨others, tailDone, same⟩ := bind_eq_ok.1 rest
      rw [← pure_eq_ok.1 same]
      rcases List.mem_cons.1 member with rfl | later
      · exact ⟨first, List.mem_cons_self, headDone⟩
      · obtain ⟨result, known, found⟩ := ih tailDone later
        exact ⟨result, List.mem_cons_of_mem _ known, found⟩

/-- Steps one after the other, each of which succeeds under a condition and leads on by a function,
lead on together if all the conditions hold; by induction on the list.
-/
theorem foldlM_eq_ok_iff {step : β → α → Except ε β} {next : β → α → β} {condition : α → Prop}
    {list : List α} {start result : β}
    (each
      : ∀ x ∈ list, ∀ before after, step before x = .ok after ↔ condition x ∧ next before x = after)
    : list.foldlM step start = .ok result
      ↔ (∀ x ∈ list, condition x) ∧ list.foldl next start = result := by
  induction list generalizing start with
  | nil => simp [pure_eq_ok]
  | cons head tail ih =>
      rw [List.forall_mem_cons] at each
      simp only [List.foldlM_cons, bind_eq_ok, each.1, ih each.2, List.forall_mem_cons,
        List.foldl_cons]
      constructor
      · rintro ⟨_, ⟨first, rfl⟩, later, rfl⟩
        exact ⟨⟨first, later⟩, rfl⟩
      · rintro ⟨⟨first, later⟩, rfl⟩
        exact ⟨_, ⟨first, rfl⟩, later, rfl⟩

theorem foldlM_eq_ok {step : β → α → Except ε β} {next : β → α → β} {list : List α} {start : β}
    (each : ∀ x ∈ list, ∀ before, step before x = .ok (next before x))
    : list.foldlM step start = .ok (list.foldl next start) := by
  have always (x) (member : x ∈ list) (before after)
      : step before x = .ok after ↔ True ∧ next before x = after := by
    rw [each x member before, Except.ok.injEq, true_and]
  exact (foldlM_eq_ok_iff always).2 ⟨fun _ _ => trivial, rfl⟩

/-- Steps fail together as one of them does, by induction on the list. -/
theorem exists_of_mapM_eq_error {step : α → Except ε β} {list : List α} {cause : ε}
    (failed : list.mapM step = .error cause)
    : ∃ x ∈ list, step x = .error cause := by
  induction list with
  | nil => cases failed
  | cons head tail ih =>
      rw [List.mapM_cons, bind_eq_error] at failed
      rcases failed with first | ⟨value, -, failed⟩
      · exact ⟨head, List.mem_cons_self, first⟩
      · rcases bind_eq_error.1 failed with later | ⟨values, -, failed⟩
        · obtain ⟨x, member, found⟩ := ih later
          exact ⟨x, List.mem_cons_of_mem _ member, found⟩
        · cases failed

/-- Steps one after the other fail as one of them does, by induction on the list. -/
theorem exists_of_foldlM_eq_error {step : β → α → Except ε β} {list : List α} {start : β}
    {cause : ε} (failed : list.foldlM step start = .error cause)
    : ∃ x ∈ list, ∃ before, step before x = .error cause := by
  induction list generalizing start with
  | nil => cases failed
  | cons head tail ih =>
      rw [List.foldlM_cons, bind_eq_error] at failed
      rcases failed with first | ⟨next, -, later⟩
      · exact ⟨head, List.mem_cons_self, start, first⟩
      · obtain ⟨x, member, before, found⟩ := ih later
        exact ⟨x, List.mem_cons_of_mem _ member, before, found⟩

end Invalidation
