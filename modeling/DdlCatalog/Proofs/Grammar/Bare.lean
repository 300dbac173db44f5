import DdlCatalog.Grammar.Statement
import Mathlib.Tactic.SplitIfs

/-! # Tokens without their places
The grammar looks at the kinds of tokens. What it reads off a row of tokens stays the same when the
tokens lose their places in the text. -/

namespace DdlCatalog

namespace Token

/-- A token that has lost its place. -/
def bare (t : Token) : Token := ⟨t.kind, ⟨0, 0⟩, 0, 0⟩

@[simp] theorem kind_bare (t : Token) : t.bare.kind = t.kind := rfl

theorem bare_eq {t u : Token} (h : t.kind = u.kind) : t.bare = u.bare := by
  rw [bare, h, bare]

theorem map_bare_eq {ts us : List Token} (h : ts.map (·.kind) = us.map (·.kind)) :
    ts.map bare = us.map bare := by
  have hkinds (ts : List Token) : ts.map bare = (ts.map (·.kind)).map fun k => ⟨k, ⟨0, 0⟩, 0, 0⟩ := by
    rw [List.map_map]
    rfl
  rw [hkinds, h, hkinds]

end Token

namespace Grammar

open Token (bare kind_bare)

/-- A rule that looks at the kinds of tokens alone. -/
def Placeless (stops : StopRule) : Prop :=
  ∀ previous t next, stops (previous.map bare) t.bare next.bare = stops previous t next

theorem closesLast_bare (depth : Nat) (ts : List Token) :
    closesLast depth (ts.map bare) = closesLast depth ts := by
  induction ts generalizing depth with
  | nil => rfl
  | cons t ts ih =>
    simp only [List.map_cons, closesLast, kind_bare, ih, List.isEmpty_map]

theorem placeless_neverStops : Placeless neverStops := fun _ _ _ => rfl

theorem placeless_endsDefault : Placeless endsDefault := by
  intro previous t next
  cases previous <;> rfl

theorem literalOf?_bare (ts : List Token) : literalOf? (ts.map bare) = literalOf? ts := by
  match ts with
  | [] | [_] | [_, _] | [_, _, _] | _ :: _ :: _ :: _ :: _ => rfl

theorem referencesAfter_bare (previous : Option Token) (ts : List Token) :
    referencesAfter (previous.map bare) (ts.map bare) = referencesAfter previous ts := by
  induction ts generalizing previous with
  | nil => rfl
  | cons t ts ih =>
    have href : referenceOf? (previous.map bare) t.bare (ts.map bare).head? =
        referenceOf? previous t ts.head? := by
      cases previous <;> cases ts <;> rfl
    rw [List.map_cons, referencesAfter, href, referencesAfter]
    exact congrArg _ (ih (some t))

theorem referencesOf_bare (ts : List Token) : referencesOf (ts.map bare) = referencesOf ts :=
  congrArg firstUses (referencesAfter_bare none ts)

theorem columnOf?_bare (ts : List Token) :
    Parser.columnOf? (ts.map bare) = Parser.columnOf? ts := by
  match ts with
  | [] | [_] | _ :: _ :: _ => rfl

theorem selectItemName?_bare (item : List Token) :
    selectItemName? (item.map bare) = selectItemName? item := by
  unfold selectItemName?
  rw [← List.map_reverse]
  match item.reverse with
  | [] | [_] | _ :: _ :: _ => rfl

theorem selectItems_bare (depth : Nat) (item ts : List Token) :
    selectItems depth (item.map bare) (ts.map bare) =
      (selectItems depth item ts).map (·.map bare) := by
  induction ts generalizing depth item with
  | nil => rfl
  | cons t ts ih =>
    rw [List.map_cons, selectItems, selectItems]
    by_cases hcomma : depth = 0 ∧ t.kind = .comma
    · have hstart := ih 0 []
      rw [List.map_nil] at hstart
      rw [if_pos (show depth = 0 ∧ t.bare.kind = .comma from hcomma), if_pos hcomma, hstart]
      rfl
    · rw [if_neg (show ¬(depth = 0 ∧ t.bare.kind = .comma) from hcomma), if_neg hcomma]
      by_cases hends : depth = 0 ∧ endsSelectList t = true
      · rw [if_pos (show depth = 0 ∧ endsSelectList t.bare = true from hends), if_pos hends]
        rfl
      · rw [if_neg (show ¬(depth = 0 ∧ endsSelectList t.bare = true) from hends), if_neg hends,
          ← ih, List.map_append]
        rfl

theorem selectColumns_bare (ts : List Token) :
    selectColumns (ts.map bare) = selectColumns ts := by
  have hitems (ts : List Token) : (selectItems 0 [] (ts.map bare)).filterMap selectItemName? =
      (selectItems 0 [] ts).filterMap selectItemName? := by
    have hbare := selectItems_bare 0 [] ts
    rw [List.map_nil] at hbare
    rw [hbare, List.filterMap_map]
    exact congrArg (fun f => (selectItems 0 [] ts).filterMap f) (funext selectItemName?_bare)
  match ts with
  | [] => rfl
  | [t] => rfl
  | t :: d :: ts =>
    rw [List.map_cons]
    unfold selectColumns
    dsimp only
    by_cases hselect : t.word? = some "select"
    · rw [if_pos (show t.bare.word? = some "select" from hselect), if_pos hselect]
      show (selectItems 0 [] (if d.isKeyword .DISTINCT then ts.map bare
        else (d :: ts).map bare)).filterMap selectItemName? =
        (selectItems 0 [] (if d.isKeyword .DISTINCT then ts else d :: ts)).filterMap selectItemName?
      split
      · exact hitems ts
      · exact hitems (d :: ts)
    · rw [if_neg (show ¬t.bare.word? = some "select" from hselect), if_neg hselect]

end Grammar

end DdlCatalog
