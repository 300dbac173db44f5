import DdlCatalog.Proofs.Grammar.Single

/-! # Declarations of tables in front of known tokens
What `CREATE TABLE name (elements)` is read as once its elements are. -/

namespace DdlCatalog.Grammar

open Token (Kind)

def tableOf (name : ObjectName) (elements : List TableElement) : CreateTable :=
  let constraints := elements.flatMap Prod.snd
  let columns := markKeys (elements.flatMap Prod.fst) constraints
  ⟨name, false, false, false, none, columns, constraints.map (completeCheck columns)⟩

def primaryKeys (elements : List TableElement) : List TableConstraint :=
  (elements.flatMap Prod.snd).filter (·.isPrimaryKey)

namespace Parser

variable {ctx : Context} {c w p l r : Token} {nm ts rest : List Token} {name : ObjectName}
  {elements : List TableElement} {s : CreateTable}

theorem run_tableElements (hl : l.kind = .leftParen) (hr : r.kind = .rightParen)
    (hne : (ctx.current ts).kind ≠ .rightParen)
    (helements : (commaList tableElement).run ctx ts = .ok (elements, r :: rest)) :
    tableElements.run ctx (l :: ts) = .ok (elements, rest) := by
  rw [tableElements, run_bind_of_ok (run_expect_of_eq hl)]
  refine (run_bind_of_ok (run_at?_of_ne hne)).trans ?_
  refine (run_bind_of_ok helements).trans ?_
  rw [run_bind_of_ok (run_expect_of_eq hr)]
  rfl

/-- A table with at most one primary key is accepted, from the word `TABLE` on. -/
theorem run_createTable_plain (hstop : ctx.stop.kind = .eof) (hw : w.kind = .keyword .TABLE)
    (hexists : ifNotExists.run ctx nm = .ok (false, nm))
    (hname : objectName.run ctx nm = .ok (name, ts))
    (helements : tableElements.run ctx ts = .ok (elements, [])) :
    (createTable false false).run ctx (w :: nm) = .ok (s, []) ↔
      (primaryKeys elements).length ≤ 1 ∧ s = tableOf name elements := by
  have haction : (onCommit false).run ctx [] = .ok (none, []) := by
    have hon : (atKeyword .ON).run ctx [] = .ok (false, []) := by
      show Except.ok (ctx.stop.isKeyword .ON, []) = _
      rw [Token.isKeyword, hstop]
      rfl
    rw [onCommit, run_bind_of_ok hon]
    rfl
  rw [createTable, run_bind_of_ok (run_expectKeyword_of_eq hw), run_bind_of_ok hexists,
    run_bind_of_ok hname, run_bind_of_ok helements, run_bind_of_ok haction]
  dsimp only
  unfold primaryKeys tableOf
  generalize hkeys : (elements.flatMap Prod.snd).filter (·.isPrimaryKey) = keys
  rcases keys with _ | ⟨first, _ | ⟨second, keys⟩⟩
  · simp [eq_comm]
  · simp [eq_comm]
  · simp only [List.length_cons, Nat.reduceLeDiff, false_and, iff_false]
    intro h
    cases h

theorem run_statement_table (hstop : ctx.stop.kind = .eof) (hc : c.kind = .keyword .CREATE)
    (hw : w.kind = .keyword .TABLE) (hexists : ifNotExists.run ctx nm = .ok (false, nm))
    (hname : objectName.run ctx nm = .ok (name, ts))
    (helements : tableElements.run ctx ts = .ok (elements, [])) {s : Statement} :
    statement.run ctx (c :: w :: nm) = .ok (s, []) ↔
      (primaryKeys elements).length ≤ 1 ∧ s = .createTable (tableOf name elements) := by
  have hmodifier : ∀ k ∈ [Token.Keyword.OR, .TEMPORARY, .TEMP, .UNLOGGED, .UNIQUE],
      w.kind ≠ .keyword k := by
    intro k hk hkind
    cases Kind.keyword.inj (hkind.symm.trans hw)
    simp at hk
  have hcreated : (created ⟨false, false, false, false⟩).run ctx (w :: nm) =
      (do return .createTable (← createTable false false) : Parser Statement).run ctx (w :: nm) := by
    rw [created, run_bind_of_ok run_current]
    have hcurrent : (ctx.current (w :: nm)).kind = .keyword .TABLE := hw
    rw [hcurrent]
    rfl
  rw [run_statement_created_iff hstop hc hmodifier, hcreated]
  constructor
  · intro h
    obtain ⟨table, mid, htable, hmore⟩ := run_bind_ok h
    cases hmore
    obtain ⟨hkeys, rfl⟩ := (run_createTable_plain hstop hw hexists hname helements).1 htable
    exact ⟨hkeys, rfl⟩
  · rintro ⟨hkeys, rfl⟩
    rw [run_bind_of_ok ((run_createTable_plain hstop hw hexists hname helements).2 ⟨hkeys, rfl⟩)]
    rfl

end Parser

end DdlCatalog.Grammar
