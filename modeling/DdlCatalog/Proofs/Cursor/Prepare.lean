import DdlCatalog.Proofs.Cursor.Expression
import DdlCatalog.Proofs.Grammar.Placeholders

/-! # Prepared statements by position
On the way to the end of the statement, the placeholders of either kind are gathered, and the first one is
kept that some of the other kind precede. -/

namespace DdlCatalog.Grammar

/-- The placeholders met so far. -/
@[ext]
structure Gathered where
  named : List String
  positional : List UInt32
  /-- The first one behind some of the other kind. -/
  stray : Option Token

/-- A list with an element that is in it once. -/
def withNew {α : Type} [DecidableEq α] (as : List α) (a : α) : List α := if a ∈ as then as else as ++ [a]

namespace Gathered

def add (g : Gathered) (t : Token) : Gathered :=
  match t.kind with
  | .named name =>
    { g with
      named := withNew g.named name
      stray := if g.positional ≠ [] ∧ g.stray = none then some t else g.stray }
  | .positional n =>
    { g with
      positional := withNew g.positional n
      stray := if g.named ≠ [] ∧ g.stray = none then some t else g.stray }
  | _ => g

def parameters (g : Gathered) : PreparedParameters :=
  if g.named ≠ [] then .named g.named
  else if g.positional ≠ [] then .positional g.positional
  else .none

end Gathered

namespace Cursor

def parameterTypes : Cursor (List TypeRef) := do
  if ← accept .leftParen then
    let types ← commaList typeRef
    expect .rightParen
    return types
  else
    return []

def preparedQuery (name : ObjectName) : Cursor (String × PreparedParameters) := do
  if ← atEnd then error s!"prepared statement {name} has an empty body"
  else
    let start ← position
    let gathered ← foldToEnd Gathered.add ⟨[], [], none⟩
    match gathered.stray with
    | some t =>
      errorAt (← locate t) s!"prepared statement {name} mixes :name and $n placeholders"
    | none => return (← textBetween start (← position), gathered.parameters)

def prepare : Cursor Prepare := do
  expectKeyword .PREPARE
  let name ← objectName
  let types ← parameterTypes
  expectKeyword .AS
  let (body, ps) ← preparedQuery name
  return ⟨name, types, ps, body⟩

end Cursor

theorem eraseDups_concat {α : Type} [DecidableEq α] (as : List α) (a : α) :
    (as ++ [a]).eraseDups = withNew as.eraseDups a := by
  rw [List.eraseDups_append, withNew]
  by_cases h : a ∈ as <;> simp [List.removeAll, h, List.eraseDups_cons]

theorem eraseDups_eq_nil_iff {α : Type} [DecidableEq α] (as : List α) : as.eraseDups = [] ↔ as = [] := by
  cases as <;> simp [List.eraseDups_cons]

variable {ts : List Token} {t u : Token} {p : Placeholder}

theorem placeholdersOf_concat (ts : List Token) (t : Token) :
    placeholdersOf (ts ++ [t]) = placeholdersOf ts ++ (Placeholder.ofToken? t).toList := by
  rw [placeholdersOf, List.filterMap_append]
  cases h : Placeholder.ofToken? t <;> simp [placeholdersOf, h]

theorem namedOf_concat (hp : Placeholder.ofToken? t = some p) :
    namedOf (ts ++ [t]) = namedOf ts ++ p.name?.toList := by
  rw [namedOf, placeholdersOf_concat, List.filterMap_append, hp]
  cases p <;> rfl

theorem positionalOf_concat (hp : Placeholder.ofToken? t = some p) :
    positionalOf (ts ++ [t]) = positionalOf ts ++ p.number?.toList := by
  rw [positionalOf, placeholdersOf_concat, List.filterMap_append, hp]
  cases p <;> rfl

theorem placeholders_concat (ts : List Token) (t : Token) :
    placeholders (ts ++ [t]) = placeholders ts ++ ((Placeholder.ofToken? t).map (t, ·)).toList := by
  rw [placeholders, List.filterMap_append]
  cases h : Placeholder.ofToken? t <;> simp [placeholders, h]

/-- The next placeholder is the first stray one if there is none yet and one in front of it is of the other
kind. -/
theorem strayPlaceholder?_concat (hp : Placeholder.ofToken? t = some p) :
    strayPlaceholder? (placeholders (ts ++ [t])) =
      if (¬ ∀ q ∈ placeholdersOf ts, q.isNamed = p.isNamed) ∧ strayPlaceholder? (placeholders ts) = none
      then some t else strayPlaceholder? (placeholders ts) := by
  rw [placeholders_concat, hp, ← placeholders_snd]
  generalize placeholders ts = found
  cases found with
  | nil => rfl
  | cons front rest =>
    obtain ⟨t₀, first⟩ := front
    let strays (a : Token × Placeholder) : Bool := a.2.isNamed ≠ first.isNamed
    show ((rest ++ [(t, p)]).find? strays).map Prod.fst = _
    have hstray : strayPlaceholder? ((t₀, first) :: rest) = (rest.find? strays).map Prod.fst := rfl
    rw [List.find?_append, hstray]
    cases hfind : rest.find? strays with
    | some a => exact (if_neg fun h => Option.some_ne_none _ h.2).symm
    | none =>
      have hsame : ∀ a ∈ rest, a.2.isNamed = first.isNamed := by
        simpa [strays] using List.find?_eq_none.1 hfind
      have hall : (∀ q ∈ ((t₀, first) :: rest).map Prod.snd, q.isNamed = p.isNamed) ↔
          p.isNamed = first.isNamed := by
        rw [List.map_cons, List.forall_mem_cons]
        refine ⟨fun h => h.1.symm, fun h => ⟨h.symm, fun q hq => ?_⟩⟩
        obtain ⟨a, ha, rfl⟩ := List.mem_map.1 hq
        rw [hsame a ha, h]
      simp only [hall]
      by_cases h : p.isNamed = first.isNamed <;> simp [strays, h]

def Gathered.of (ts : List Token) : Gathered :=
  ⟨(namedOf ts).eraseDups, (positionalOf ts).eraseDups, strayPlaceholder? (placeholders ts)⟩

theorem Gathered.of_concat_of_none (ts : List Token) (h : Placeholder.ofToken? t = none) :
    Gathered.of (ts ++ [t]) = Gathered.of ts := by
  have hsame : placeholdersOf (ts ++ [t]) = placeholdersOf ts := by
    rw [placeholdersOf_concat, h]
    exact List.append_nil _
  have hfound : placeholders (ts ++ [t]) = placeholders ts := by
    rw [placeholders_concat, h]
    exact List.append_nil _
  rw [Gathered.of, namedOf, positionalOf, hsame, hfound]
  rfl

theorem Gathered.add_of (ts : List Token) (t : Token) :
    (Gathered.of ts).add t = Gathered.of (ts ++ [t]) := by
  cases hk : t.kind with
  | named name =>
    have hp : Placeholder.ofToken? t = some (.named name) := by rw [Placeholder.ofToken?, hk]
    have hothers : (positionalOf ts).eraseDups = [] ↔ ∀ q ∈ placeholdersOf ts, q.isNamed = true :=
      (eraseDups_eq_nil_iff _).trans positionalOf_eq_nil_iff
    simp only [Gathered.of, Gathered.add, hk, namedOf_concat hp, positionalOf_concat hp,
      strayPlaceholder?_concat hp, ne_eq, hothers]
    exact Gathered.ext (eraseDups_concat ..).symm
      (congrArg List.eraseDups (List.append_nil _).symm) rfl
  | positional n =>
    have hp : Placeholder.ofToken? t = some (.positional n) := by rw [Placeholder.ofToken?, hk]
    have hothers : (namedOf ts).eraseDups = [] ↔ ∀ q ∈ placeholdersOf ts, q.isNamed = false :=
      (eraseDups_eq_nil_iff _).trans namedOf_eq_nil_iff
    simp only [Gathered.of, Gathered.add, hk, namedOf_concat hp, positionalOf_concat hp,
      strayPlaceholder?_concat hp, ne_eq, hothers]
    exact Gathered.ext (congrArg List.eraseDups (List.append_nil _).symm)
      (eraseDups_concat ..).symm rfl
  | _ =>
    have hp : Placeholder.ofToken? t = none := by rw [Placeholder.ofToken?, hk]
    rw [Gathered.of_concat_of_none ts hp, Gathered.add, hk]

theorem foldl_add (ts : List Token) :
    ts.foldl Gathered.add ⟨[], [], none⟩ = Gathered.of ts := by
  have hmore (us : List Token) : ts.foldl Gathered.add (.of us) = .of (us ++ ts) := by
    induction ts generalizing us with
    | nil => rw [List.append_nil]; rfl
    | cons t ts ih => rw [List.foldl_cons, Gathered.add_of, ih, List.append_assoc]; rfl
  exact hmore []

theorem parameters_of (ts : List Token) :
    (Gathered.of ts).parameters = preparedParameters ((placeholders ts).map Prod.snd) := by
  rw [placeholders_snd, preparedParameters_eq, Gathered.parameters, Gathered.of]
  simp only [ne_eq, eraseDups_eq_nil_iff]

namespace Layout

variable {K : Layout}

instance follows_parameterTypes : K.Follows Cursor.parameterTypes Parser.parameterTypes := by
  unfold Cursor.parameterTypes Parser.parameterTypes
  infer_instance

instance follows_preparedQuery (name : ObjectName) :
    K.Follows (Cursor.preparedQuery name) (Parser.preparedQuery name) where
  at_position i hi := by
    suffices h : K.FollowsAt i (Cursor.preparedQuery name) (do
        let taken ← Parser.toEnd
        if taken.isEmpty then Parser.error s!"prepared statement {name} has an empty body"
        else
          match strayPlaceholder? (placeholders taken) with
          | some t =>
            Parser.errorAt (K.ctx.locate t)
              s!"prepared statement {name} mixes :name and $n placeholders"
          | none =>
            return (K.ctx.textOf taken, preparedParameters ((placeholders taken).map Prod.snd))) from h
    refine followsAt_of_read (atEnd_at hi) ?_
    have hrun := run_toEnd_left K i
    by_cases heof : (K.token i).kind = .eof
    · rw [rest_of_eof hi heof] at hrun
      rw [if_pos (decide_eq_true heof)]
      exact followsAt_of_keep hrun
        (followsAt (p := Parser.error s!"prepared statement {name} has an empty body") hi)
    · have hstop := add_length_rest_le hi
      have htext := textBetween_at hstop (i + (K.rest i).length)
      rw [take_left_rest] at htext
      rw [if_neg (by simpa using heof)]
      refine followsAt_of_read position_at
        (followsAt_of_step (foldToEnd_at _ hi) hrun ?_)
      have hne : (K.rest i).isEmpty = false := by rw [rest_of_ne heof]; rfl
      have hstray : (Gathered.of (K.rest i)).stray = strayPlaceholder? (placeholders (K.rest i)) := rfl
      rw [hne, if_neg Bool.false_ne_true, foldl_add, hstray, parameters_of]
      cases strayPlaceholder? (placeholders (K.rest i)) with
      | some t => exact followsAt_of_read (locate_at K t _) (followsAt hstop)
      | none =>
        exact followsAt_of_read position_at (followsAt_of_read htext (followsAt hstop))

instance follows_prepare : K.Follows Cursor.prepare Parser.prepare := by
  unfold Cursor.prepare Parser.prepare
  infer_instance

end Layout

end DdlCatalog.Grammar
