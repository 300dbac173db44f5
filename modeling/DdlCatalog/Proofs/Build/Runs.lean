import DdlCatalog.Build.Draft

/-! # Steps that succeed
A step that succeeds has a value and leaves a draft. What it returns is taken apart along the way it
is put together. -/

namespace DdlCatalog.DraftM

variable {α β : Type} {d d' : Draft}

/-- The step succeeds on the first draft with a value and leaves the second. -/
def Runs (m : DraftM α) (d : Draft) (a : α) (d' : Draft) : Prop := m.run.run d = (.ok a, d')

theorem Runs.unique {m : DraftM α} {a b : α} {d'' : Draft} (h : Runs m d a d')
    (h' : Runs m d b d'') : a = b ∧ d' = d'' := by
  have he : (Except.ok a, d') = (Except.ok b, d'') := h.symm.trans h'
  cases he
  exact ⟨rfl, rfl⟩

theorem exists_runs {m : DraftM α} (h : (m.run.run d).1.isOk = true) :
    ∃ a, Runs m d a (m.run.run d).2 := by
  rcases hrun : m.run.run d with ⟨e | a, d'⟩
  · rw [hrun] at h
    cases h
  · exact ⟨a, hrun⟩

@[simp] theorem runs_pure {a b : α} : Runs (pure a) d b d' ↔ b = a ∧ d' = d := by
  constructor
  · intro h
    cases h
    exact ⟨rfl, rfl⟩
  · rintro ⟨rfl, rfl⟩
    rfl

/-- A step after another one starts from the draft that the first one leaves, if that succeeds. -/
theorem run_bind (m : DraftM α) (f : α → DraftM β) (d : Draft) :
    (m >>= f).run.run d =
      match m.run.run d with
      | (.ok a, mid) => (f a).run.run mid
      | (.error e, mid) => (.error e, mid) := by
  show StateT.run (ExceptT.bind m f) d = _
  unfold ExceptT.bind
  show (match m.run.run d with | (a, mid) => StateT.run (ExceptT.bindCont f a) mid) = _
  rcases m.run.run d with ⟨a | a, mid⟩ <;> rfl

@[simp] theorem runs_bind {m : DraftM α} {f : α → DraftM β} {b : β} :
    Runs (m >>= f) d b d' ↔ ∃ a mid, Runs m d a mid ∧ Runs (f a) mid b d' := by
  unfold Runs
  rw [run_bind]
  rcases m.run.run d with ⟨e | a, mid⟩
  · constructor
    · intro h
      cases h
    · rintro ⟨a, mid, he, -⟩
      cases he
  · constructor
    · intro h
      exact ⟨a, mid, rfl, h⟩
    · rintro ⟨a, mid, he, h⟩
      cases he
      exact h

@[simp] theorem runs_map {m : DraftM α} {f : α → β} {b : β} :
    Runs (f <$> m) d b d' ↔ ∃ a, Runs m d a d' ∧ b = f a := by
  have h : f <$> m = m >>= fun a => pure (f a) := map_eq_pure_bind f m
  rw [h, runs_bind]
  simp only [runs_pure]
  constructor
  · rintro ⟨a, mid, hm, hb, hd⟩
    exact ⟨a, hd ▸ hm, hb⟩
  · rintro ⟨a, hm, hb⟩
    exact ⟨a, d', hm, hb, rfl⟩

@[simp] theorem runs_discard {m : DraftM α} {u : Unit} :
    Runs (discard m) d u d' ↔ ∃ a, Runs m d a d' := by
  have h : discard m = m >>= fun _ => (pure () : DraftM Unit) := map_eq_pure_bind (fun _ => ()) m
  rw [h, runs_bind]
  simp only [runs_pure]
  constructor
  · rintro ⟨a, mid, hm, -, hd⟩
    exact ⟨a, hd ▸ hm⟩
  · rintro ⟨a, hm⟩
    exact ⟨a, d', hm, trivial, rfl⟩

@[simp] theorem runs_throw {e : Error} {a : α} : ¬ Runs (throw e) d a d' := by
  intro h
  cases h

@[simp] theorem runs_lift {x : Except Error α} {a : α} :
    Runs (liftM x) d a d' ↔ x = .ok a ∧ d' = d := by
  cases x with
  | error e =>
    constructor
    · intro h
      cases h
    · rintro ⟨h, -⟩
      cases h
  | ok b =>
    constructor
    · intro h
      cases h
      exact ⟨rfl, rfl⟩
    · rintro ⟨h, rfl⟩
      cases h
      rfl

@[simp] theorem runs_catalog {c : Catalog} : Runs catalog d c d' ↔ c = d.catalog ∧ d' = d := by
  unfold catalog
  constructor
  · intro h
    cases h
    exact ⟨rfl, rfl⟩
  · rintro ⟨rfl, rfl⟩
    rfl

/-- Looking at the catalog changes nothing. -/
theorem runs_catalog_bind {f : Catalog → DraftM β} {b : β} :
    Runs (catalog >>= f) d b d' ↔ Runs (f d.catalog) d b d' := by
  rw [runs_bind]
  constructor
  · rintro ⟨_, _, hc, h⟩
    obtain ⟨rfl, rfl⟩ := runs_catalog.1 hc
    exact h
  · exact fun h => ⟨d.catalog, d, runs_catalog.2 ⟨rfl, rfl⟩, h⟩

theorem runs_modify {f : Draft → Draft} {u : Unit} :
    Runs (modify f : DraftM Unit) d u d' ↔ d' = f d := by
  constructor
  · intro h
    cases h
    rfl
  · rintro rfl
    rfl

@[simp] theorem runs_note {e : Event} {u : Unit} :
    Runs (note e) d u d' ↔ d' = { d with log := d.log ++ [e] } := runs_modify

@[simp] theorem runs_report {e : Error} {u : Unit} :
    Runs (report e) d u d' ↔ d' = { d with issues := d.issues ++ [e] } := runs_modify

@[simp] theorem runs_change {f : Catalog → Catalog} {u : Unit} :
    Runs (change f) d u d' ↔ d' = { d with catalog := f d.catalog } := runs_modify

@[simp] theorem runs_park {target : QualifiedName} {r : PendingReference} {u : Unit} :
    Runs (park target r) d u d' ↔
      d' = { d with pending := d.pending.alter target fun rs => rs.getD [] ++ [r] } :=
  runs_modify

@[simp] theorem runs_forM_cons {f : α → DraftM Unit} {a : α} {as : List α} {u : Unit} :
    Runs (forM (a :: as) f) d u d' ↔
      ∃ mid, Runs (f a) d () mid ∧ Runs (forM as f) mid () d' := by
  rw [List.forM_cons, runs_bind]
  constructor
  · rintro ⟨_, mid, ha, has⟩
    exact ⟨mid, ha, has⟩
  · rintro ⟨mid, ha, has⟩
    exact ⟨(), mid, ha, has⟩

@[simp] theorem runs_foldlM_nil {f : β → α → DraftM β} {b b' : β} :
    Runs ([].foldlM f b) d b' d' ↔ b' = b ∧ d' = d := by
  rw [List.foldlM_nil, runs_pure]

@[simp] theorem runs_foldlM_cons {f : β → α → DraftM β} {a : α} {as : List α} {b b' : β} :
    Runs ((a :: as).foldlM f b) d b' d' ↔
      ∃ b₁ mid, Runs (f b a) d b₁ mid ∧ Runs (as.foldlM f b₁) mid b' d' := by
  rw [List.foldlM_cons, runs_bind]

theorem runs_forM_report {f : α → Error} {as : List α} {u : Unit} :
    Runs (forM as fun a => report (f a)) d u d' ↔
      d' = { d with issues := d.issues ++ as.map f } := by
  induction as generalizing d with
  | nil => simp
  | cons a as ih => simp [ih]

end DdlCatalog.DraftM
