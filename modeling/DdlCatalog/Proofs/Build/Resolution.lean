import DdlCatalog.Proofs.Build.Balance

/-! # Resolving early and late
A key is checked as soon as its target is known or at the end. What is reported in all is what one check
of every key against the final catalog would report. -/

namespace DdlCatalog.Builder

variable {config : Config} {b : Builder} {trace : Trace} {c : Catalog}

theorem finish_eq_ok_iff :
    b.finish = .ok c ↔ b.draft.settle.issues = [] ∧ c = b.draft.settle.catalog := by
  unfold finish Draft.finish
  dsimp only
  cases b.draft.settle.issues with
  | nil =>
    constructor
    · intro h
      cases h
      exact ⟨rfl, rfl⟩
    · rintro ⟨-, rfl⟩
      rfl
  | cons first rest => simp

theorem finish_eq_error {e : Error} (h : b.finish = .error e) :
    e = .finalize b.draft.settle.issues := by
  unfold finish Draft.finish at h
  dsimp only at h
  split at h
  · cases h
  · cases h
    rfl

theorem Traced.issues_eq (h : Traced config b trace) : b.draft.issues = trace.map Prod.snd := by
  induction h with
  | start => rfl
  | accepted _ _ _ _ _ _ steps ih => rw [steps.issues_eq, List.map_append, ← ih]
  | rejected _ _ _ _ failed ih =>
    obtain ⟨_, hlog⟩ := exists_log_of_error failed
    rw [hlog]
    exact ih
  | remembered _ _ _ ih => exact ih

/-- The issues of foreign keys, of the trace and of the end, are those of the final catalog. -/
theorem Traced.keyIssues_perm (h : Traced config b trace) :
    ∃ late, b.draft.settle.issues = b.draft.issues ++ late ∧
      (trace.issuesOf .foreignKey ++ late).Perm b.draft.settle.catalog.allKeyIssues := by
  rcases h.ledger with ⟨hc, closed, late, hissues, hledger⟩
  exact ⟨late, hissues, hledger.reported_perm_all hc⟩

theorem Traced.issues_perm (h : Traced config b trace) :
    b.draft.settle.issues.Perm
      (trace.issuesOf .declaration ++ b.draft.settle.catalog.allKeyIssues) := by
  rcases h.keyIssues_perm with ⟨late, hissues, hperm⟩
  rw [hissues, h.issues_eq]
  apply (trace.map_snd_perm.append_right late).trans
  rw [List.append_assoc]
  exact hperm.append_left _

/-- A build succeeds exactly if no declaration has issues and all keys of the final catalog are
valid. -/
theorem Traced.exists_finish_iff (h : Traced config b trace) :
    (∃ c, b.finish = .ok c) ↔
      trace.issuesOf .declaration = [] ∧ b.draft.settle.catalog.KeysValid := by
  have hperm := h.issues_perm
  simp only [finish_eq_ok_iff, exists_and_left, exists_eq, and_true]
  rw [← Catalog.allKeyIssues_eq_nil_iff, ← List.append_eq_nil_iff, ← List.length_eq_zero_iff,
    hperm.length_eq, List.length_eq_zero_iff]

/-- Resolving early agrees with resolving late: the issues of foreign keys, whenever they were found,
are those of checking every key against the final catalog, and a build succeeds exactly if there are
none of them and none of declarations. -/
theorem keyIssues_early_and_late (h : Reachable config b) :
    (∃ trace, Traced config b trace) ∧ ∀ trace, Traced config b trace →
      b.draft.issues = trace.map Prod.snd ∧
        ∃ late, b.draft.settle.issues = b.draft.issues ++ late ∧
          (trace.issuesOf .foreignKey ++ late).Perm b.draft.settle.catalog.allKeyIssues ∧
          ((∃ c, b.finish = .ok c) ↔
            trace.issuesOf .declaration = [] ∧ b.draft.settle.catalog.KeysValid) ∧
          (∀ c, b.finish = .ok c → c = b.draft.settle.catalog) ∧
          ∀ e, b.finish = .error e → e = .finalize b.draft.settle.issues := by
  refine ⟨exists_traced h, fun trace ht => ?_⟩
  rcases ht.keyIssues_perm with ⟨late, hissues, hperm⟩
  exact ⟨ht.issues_eq, late, hissues, hperm, ht.exists_finish_iff,
    fun _ hc => (finish_eq_ok_iff.1 hc).2, fun _ he => finish_eq_error he⟩

/-- One key to a table declared later and one to a table that never comes. -/
def waitingBuilder : Builder :=
  ((Builder.ofConfig Config.default).addSource "a.sql"
    "create table a (b int references b, c int references c); create table b (b int primary key)").2

theorem keyIssues_of_waitingBuilder :
    (waitingBuilder.draft.pendingReferences.length = 2 ∧
      waitingBuilder.draft.settle.issues.length = 1) ∧
    ∃ trace, Traced Config.default waitingBuilder trace ∧
      ∃ late, waitingBuilder.draft.settle.issues = waitingBuilder.draft.issues ++ late ∧
        (trace.issuesOf .foreignKey ++ late).Perm
          waitingBuilder.draft.settle.catalog.allKeyIssues := by
  obtain ⟨⟨trace, ht⟩, hall⟩ := keyIssues_early_and_late
    (.addSource .start _ _ : Reachable Config.default waitingBuilder)
  obtain ⟨-, late, hissues, hperm, -⟩ := hall trace ht
  exact ⟨by decide +kernel, trace, ht, late, hissues, hperm⟩

end DdlCatalog.Builder
