import ShellProbe.Proofs.Completions

/-!
# The decisions of two explorations

Two explorations with one seed and one mode decide the same in the runs that both start
(`sameDecisions_of_startsRun`). A run that is complete has decided something: its constructs, and as
much as its shell has read from each feed (`Ran.decided`).
-/

namespace ShellProbe

theorem Source.select_ne_nil (s : Source) (mode : Mode) : (s.select mode).1 ≠ [] := by
  cases mode with
  | minimal => exact List.cons_ne_nil _ _
  | all => exact List.cons_ne_nil _ _
  | random =>
    refine List.ne_nil_of_mem (a := Construct.inclusion) (List.mem_filter.2 ⟨by decide, ?_⟩)
    simp [Construct.always]

theorem Source.Pool.length_fst_decisions (h : Source.Handle) (stream : Source.Stream) :
    ∀ (n : Nat) (p : Source.Pool), (p.decisions h stream n).1.length = n
  | 0, _ => rfl
  | n + 1, p => congrArg (· + 1) (length_fst_decisions h stream n (p.nextDecision h stream).2)

namespace Explorer

open Session

variable {o : Options} {mode : Mode} {n : Int} {seed : Int} {k : Nat} {target : Target}
  {w u v : World}

/-- What a run has decided whose shell read some number of decisions from each feed. -/
structure Decided (draws : Nat) (v : World) : Prop where
  constructs : v.constructs ≠ []
  feeds : v.feeds ≠ none
  read : ∃ start reads, v.starts.getLast? = some start ∧ start.decisions = some reads ∧
    reads.1.length = draws ∧ reads.2.length = draws

theorem Ran.decided {report : Report} (hran : Ran mode target u (.ok report) v) :
    Decided (behaviour u).draws v := by
  cases hran with
  | @waited bash t copy disk _ _ status h hpipes hending htold =>
    have hbehaviour : behaviour (launched t disk) = behaviour u := h.told.eq behaviour rfl
    have hconstructs : v.constructs = (choice mode u).1 :=
      (htold.eq (·.constructs) rfl).trans (h.told.eq (·.constructs) rfl)
    refine ⟨hconstructs ▸ Source.select_ne_nil _ _, ?_, ?_⟩
    · rw [htold.eq (·.feeds) rfl]
      exact Option.some_ne_none _
    · rw [htold.eq (·.starts) rfl, ← hbehaviour]
      refine ⟨_, _, List.getLast?_concat, rfl, ?_, ?_⟩
      · exact (List.length_map _).trans (Source.Pool.length_fst_decisions _ _ _ _)
      · exact (List.length_map _).trans (Source.Pool.length_fst_decisions _ _ _ _)

/-- A run with nothing in its way or in the way of those before it starts and decides. -/
theorem Plain.exists_decided (h : Plain o mode n w) (hseed : seedOf o w = some seed)
    (hk : k < n.toNat)
    (hclear : ∀ j ≤ k, obstacle? o.target (constructsAt mode seed j) w j = none) :
    ∃ u, StartsRun o mode k w u ∧
      Decided (behaviourAt w k).draws (outcome (run mode o.target) u).2 := by
  obtain ⟨p, v, hthrough⟩ := h.through hseed k (Nat.le_of_lt hk) fun j hj =>
    hclear j (Nat.le_of_lt hj)
  obtain ⟨u, hstarts, -⟩ := h.startsRun hk hthrough
  refine ⟨u, hstarts, ?_⟩
  have hresult := hstarts.result h hseed
  rw [hclear k le_rfl] at hresult
  have hran : Ran mode o.target u (outcome (run mode o.target) u).1
    (outcome (run mode o.target) u).2 := ran_run rfl
  rw [hresult] at hran
  rw [← (hstarts.after h hseed).1.behaviour_eq]
  exact hran.decided

/-- Two explorations with one seed and one mode decide the same in the runs that both start. All
else may differ: the scripts and their arguments, the machines, how many runs there are, and what
the shells did. -/
theorem sameDecisions_of_startsRun {o₁ o₂ : Options} {index : Nat} {seed : Int}
    {w₁ u₁ w₂ u₂ : World} (hseed₁ : o₁.seed = some (.filled seed))
    (hseed₂ : o₂.seed = some (.filled seed)) (h₁ : StartsRun o₁ mode index w₁ u₁)
    (h₂ : StartsRun o₂ mode index w₂ u₂) :
    SameDecisions (outcome (run mode o₁.target) u₁).2 (outcome (run mode o₂.target) u₂).2 := by
  have hseedOf : ∀ {o : Options} {w : World}, o.seed = some (.filled seed) →
      seedOf o w = some seed := fun ho => by rw [seedOf, ho]
  exact (h₁.behind (hseedOf hseed₁)).sameDecisions (h₂.behind (hseedOf hseed₂))

/-- The second of two runs and the second of three, of other scripts and by other shells. -/
theorem sameDecisions_of_startsRun_second :
    let o₁ : Options :=
      ⟨"random", .filled "s.sh", [], .filled 2, some (.filled 7), none, none, none, none, false⟩
    let o₂ : Options :=
      ⟨"random", .filled "bin/bash", ["x"], .filled 3, some (.filled 7), none, none, none, none,
        true⟩
    let w₁ := scriptWorld [⟨0, [], .exited 0⟩, ⟨2, [], .exited 0⟩] []
    let w₂ := scriptWorld
      [⟨5, Utf8.encode "s.sh\x1f1\x1f\x1fls\n", .exited 1⟩, ⟨3, [], .exited 127⟩] []
    ∃ u₁ u₂, StartsRun o₁ .random 1 w₁ u₁ ∧ StartsRun o₂ .random 1 w₂ u₂ ∧
      SameDecisions (outcome (run .random o₁.target) u₁).2
        (outcome (run .random o₂.target) u₂).2 ∧
      Decided 2 (outcome (run .random o₁.target) u₁).2 ∧
      Decided 3 (outcome (run .random o₂.target) u₂).2 := by
  intro o₁ o₂ w₁ w₂
  have h₁ : Plain o₁ .random 2 w₁ :=
    ⟨by decide, rfl, by decide, rfl, rfl, rfl, fresh_scriptWorld (by simp), by decide⟩
  have h₂ : Plain o₂ .random 3 w₂ :=
    ⟨by decide, rfl, by decide, rfl, rfl, rfl, fresh_scriptWorld (by simp), by decide⟩
  have hendings : ∀ k ≤ 1, (∃ status, (behaviourAt w₁ k).ending = .exited status) ∧
      ∃ status, (behaviourAt w₂ k).ending = .exited status := by
    rintro (_ | _ | k) hk
    · exact ⟨⟨0, rfl⟩, 1, rfl⟩
    · exact ⟨⟨0, rfl⟩, 127, rfl⟩
    · omega
  have hseed₁ : seedOf o₁ w₁ = some 7 := rfl
  have hseed₂ : seedOf o₂ w₂ = some 7 := rfl
  obtain ⟨u₁, hstarts₁, hdecided₁⟩ := h₁.exists_decided (k := 1) hseed₁ (by decide)
    fun k hk => obstacle?_scriptWorld (by simp) (.inl rfl) rfl _ (hendings k hk).1.choose_spec
  obtain ⟨u₂, hstarts₂, hdecided₂⟩ := h₂.exists_decided (k := 1) hseed₂ (by decide)
    fun k hk => obstacle?_scriptWorld (by simp) (.inr rfl) rfl _ (hendings k hk).2.choose_spec
  exact ⟨u₁, u₂, hstarts₁, hstarts₂, sameDecisions_of_startsRun rfl rfl hstarts₁ hstarts₂,
    hdecided₁, hdecided₂⟩

end Explorer

end ShellProbe
