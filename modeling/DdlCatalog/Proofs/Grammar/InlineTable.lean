import DdlCatalog.Proofs.Grammar.InlineRule
import DdlCatalog.Proofs.Grammar.SharedElements

/-! # Tables whose last key moves into a column
The last element of a table is a key or a reference of the column in front of it. Written in the column
instead, it is read with the same elements before it and the same clauses of the column. -/

namespace DdlCatalog.Grammar

open Text (Location)
open Token (Kind)
open DdlCatalog.Grammar.Parser

variable {ctx ctx' : Context} {ts rest rest' : List Token}

theorem Shares.mono {row row' : List Token} (h : Shares ctx ctx' row) (hrow : row' ⊆ row) :
    Shares ctx ctx' row' :=
  { h with textOf_eq := fun ts hts => h.textOf_eq ts (List.Subset.trans hts hrow) }

/-- Elements with a comma behind each of them are read whatever stands behind the last comma. -/
theorem Listed.elements_there {es : List TableElement} (hshares : Shares ctx ctx' ts)
    (h : Listed tableElement ctx (ts ++ rest) es rest) : Listed tableElement ctx' (ts ++ rest') es rest' := by
  rcases h.exists_last with ⟨rfl, heq⟩ | ⟨es, e, mid, comma, rfl, hlisted, hlast, hcomma⟩
  · obtain rfl : ts = [] := List.append_left_eq_self.1 heq
    exact .nil _
  · -- the last comma belongs to the row
    obtain ⟨row, rfl⟩ : ∃ row, ts = row ++ [comma] := by
      obtain ⟨front, hfront⟩ := (suffix_of_run hlast).trans hlisted.suffix
      have hrow : ts ++ rest = front ++ [comma] ++ rest := by
        rw [← hfront, List.append_assoc]
        rfl
      exact ⟨front, List.append_cancel_right hrow⟩
    let F : Fork :=
      { here := ctx, there := ctx', row, comma, rest, next := comma, rest', kind_comma := hcomma
        parts_next := by rw [hcomma]
        shares := hshares.mono (List.subset_append_left ..) }
    have hplain : F.Plain := ⟨rfl⟩
    rw [List.append_assoc] at hlisted ⊢
    have hmid : [] ++ F.behind <:+ mid := suffix_of_run hlast
    obtain ⟨vs, rfl, hvs⟩ := Fork.exists_row hmid hlisted.suffix
    have hthere : Listed tableElement ctx' (row ++ comma :: rest') es (vs ++ comma :: rest') :=
      Fork.Local.listed (F := F) inferInstance (List.Subset.refl row) hlisted
    have hlast : tableElement.run F.here (vs ++ F.behind) = .ok (e, [] ++ F.behind) := hlast
    exact hthere.append (.cons (Fork.Local.read hvs.subset hlast) hcomma (.nil _))

theorem ne_rightParen_of_tableElement {t : Token} {o : TableElement × List Token}
    (h : tableElement.run ctx (t :: ts) = .ok o) : t.kind ≠ .rightParen := by
  intro hk
  have hstart : startsTableConstraint t = false := by rw [startsTableConstraint, hk]
  have hname : t.name? = none := by rw [Token.name?, hk]; rfl
  rw [tableElement, run_bind_of_ok run_current, show ctx.current (t :: ts) = t from rfl, hstart] at h
  obtain ⟨_, _, hdef, -⟩ := run_bind_ok h
  obtain ⟨l, mid, hl, hdef⟩ := run_bind_ok hdef
  obtain ⟨-, rfl⟩ : _ = l ∧ t :: ts = mid := Prod.mk.inj (Except.ok.inj hl)
  obtain ⟨_, _, hrun, -⟩ := run_bind_ok hdef
  rw [name, run_bind_of_ok run_current, show (ctx.current (t :: ts)).name? = none from hname] at hrun
  cases hrun

theorem of_run_yields {α : Type} {p : Parser α} {P : α → Prop} {a : α} (h : Yields p P)
    (hrun : p.run ctx ts = .ok (a, rest)) : P a := by
  unfold run at hrun
  cases ho : p ctx ts with
  | error e =>
    rw [ho] at hrun
    cases hrun
  | ok o =>
    rw [ho] at hrun
    cases hrun
    exact h ctx ts trivial o ho

theorem pendingName_of_columnClause {d d' : ColumnDraft} {word : Token}
    (h : (columnClause d word).run ctx ts = .ok (some d', rest)) (hword : word.kind ≠ .keyword .CONSTRAINT)
    (hd : d.pendingName = none) : d'.pendingName = none := by
  unfold run columnClause at h
  dsimp only at h
  generalize ctx.locate word = l at h
  change run _ ctx ts = _ at h
  split at h
  case h_1 | h_2 | h_3 => cases (Prod.mk.inj (Except.ok.inj h)).1
  case h_4 hk => exact absurd hk hword
  case h_6 =>
    obtain rfl := Option.some.inj (Prod.mk.inj (Except.ok.inj h)).1
    rfl
  case h_15 => cases h
  all_goals
    obtain ⟨_, _, -, h⟩ := run_bind_ok h
    obtain rfl := Option.some.inj (Prod.mk.inj (Except.ok.inj h)).1
    first | rfl | exact hd

/-- Where no clause names a constraint, none is waiting for its name. -/
theorem Claused.pendingName_eq {d d' : ColumnDraft} (h : Claused columnClause ctx d (ts ++ rest) d' rest)
    (hts : ∀ t ∈ ts, t.kind ≠ .keyword .CONSTRAINT) (hd : d.pendingName = none) : d'.pendingName = none := by
  generalize hfront : ts ++ rest = front at h
  induction h generalizing ts with
  | nil => exact hd
  | @cons d d₁ d' t front mid rest first others ih =>
    cases ts with
    | nil =>
      subst hfront
      have hlength := (others.suffix.trans (suffix_of_run first)).length_le
      rw [List.length_cons] at hlength
      omega
    | cons u ts =>
      obtain ⟨rfl, rfl⟩ := List.cons.inj hfront
      obtain ⟨hu, hts⟩ := List.forall_mem_cons.1 hts
      obtain ⟨vs, rfl⟩ := others.suffix
      obtain ⟨front, hvs⟩ := suffix_of_run first
      rw [← List.append_assoc] at hvs
      obtain rfl := List.append_cancel_right hvs
      exact ih (fun t ht => hts t (List.mem_append_right _ ht)) (pendingName_of_columnClause first hu hd) rfl

/-- The tokens of `CREATE TABLE name (elements, column type clauses`. -/
structure TableFront where
  create : Token
  table : Token
  name : List Token
  left : Token
  /-- The elements in front of the column, with a comma behind each of them. -/
  elements : List Token
  column : Token
  type : List Token
  clauses : List Token

namespace TableFront

variable (f : TableFront)

def afterColumn (rest : List Token) : List Token := f.type ++ (f.clauses ++ rest)

def afterLeft (rest : List Token) : List Token := f.elements ++ f.column :: f.afterColumn rest

def afterTable (rest : List Token) : List Token := f.name ++ f.left :: f.afterLeft rest

def tokens : List Token := f.create :: f.table :: f.afterTable []

theorem afterColumn_append (rest : List Token) : f.afterColumn [] ++ rest = f.afterColumn rest := by
  simp [afterColumn]

theorem afterLeft_append (rest : List Token) : f.afterLeft [] ++ rest = f.afterLeft rest := by
  simp [afterLeft, afterColumn]

theorem afterTable_append (rest : List Token) : f.afterTable [] ++ rest = f.afterTable rest := by
  simp [afterTable, afterLeft, afterColumn]

theorem tokens_append (rest : List Token) : f.tokens ++ rest = f.create :: f.table :: f.afterTable rest := by
  simp [tokens, afterTable_append]

/-- The parts of a declaration are read as such in front of some tokens. No clause has a name. -/
structure Reads (ctx : Context) (rest : List Token) (column : String) (name : ObjectName)
    (elements : List TableElement) (d : ColumnDraft) : Prop where
  create_kind : f.create.kind = .keyword .CREATE
  table_kind : f.table.kind = .keyword .TABLE
  unconditional : ∀ t ∈ f.name.head?, t.kind ≠ .keyword .IF
  name_read : objectName.run ctx (f.afterTable rest) = .ok (name, f.left :: f.afterLeft rest)
  left_kind : f.left.kind = .leftParen
  elements_read : Listed tableElement ctx (f.afterLeft rest) elements (f.column :: f.afterColumn rest)
  column_kind : startsTableConstraint f.column = false
  column_name : f.column.name? = some column
  column_read : ∃ t, typeRef.run ctx (f.afterColumn rest) = .ok (t, f.clauses ++ rest) ∧
    Claused columnClause ctx ⟨Column.named column (some t), [], none⟩ (f.clauses ++ rest) d rest
  unnamed : ∀ t ∈ f.clauses, t.kind ≠ .keyword .CONSTRAINT

variable {f} {column : String} {n : ObjectName} {es more : List TableElement} {d d' : ColumnDraft}
  {mid : List Token} {r : Token}

namespace Reads

theorem pendingName_eq (h : f.Reads ctx rest column n es d) : d.pendingName = none := by
  obtain ⟨_, -, hclaused⟩ := h.column_read
  exact hclaused.pendingName_eq h.unnamed rfl

theorem name_eq (h : f.Reads ctx rest column n es d) : d.column.name = column := by
  obtain ⟨t, -, hclaused⟩ := h.column_read
  have hstart : ColumnDraft.Keeps column ⟨Column.named column (some t), [], none⟩ :=
    ⟨rfl, rfl, by simp, by simp⟩
  refine (hclaused.invariant (I := ColumnDraft.Keeps column) hstart ?_).name_eq
  intro d t ts d' mid hd hrun
  exact of_run_yields (yields_columnClause hd t) hrun d' rfl

theorem run_columnDef (h : f.Reads ctx rest column n es d)
    (hrest : (Parser.clauses columnClause d).run ctx rest = .ok (d', mid)) :
    tableElement.run ctx (f.column :: f.afterColumn rest) =
      .ok (([⟨d'.column, ctx.locate f.column⟩], d'.constraints), mid) := by
  obtain ⟨t, htype, hclaused⟩ := h.column_read
  have hplace : location.run ctx (f.column :: f.afterColumn rest) =
      .ok (ctx.locate f.column, f.column :: f.afterColumn rest) := rfl
  have hdef : columnDef.run ctx (f.column :: f.afterColumn rest) =
      .ok ((⟨d'.column, ctx.locate f.column⟩, d'.constraints), mid) := by
    rw [columnDef, run_bind_of_ok hplace, run_bind_of_ok (run_name_of_some h.column_name),
      run_bind_of_ok htype, run_bind_of_ok (hclaused.run_clauses.trans hrest)]
    rfl
  rw [tableElement, run_bind_of_ok run_current,
    show ctx.current (f.column :: f.afterColumn rest) = f.column from rfl, h.column_kind]
  exact run_bind_of_ok hdef

theorem run_statement (h : f.Reads ctx rest column n es d) (hstop : ctx.stop.kind = .eof)
    (hr : r.kind = .rightParen)
    (hmore : (commaList tableElement).run ctx (f.column :: f.afterColumn rest) = .ok (more, [r]))
    {s : Statement} : statement.run ctx (f.tokens ++ rest) = .ok (s, []) ↔
      (primaryKeys (es ++ more)).length ≤ 1 ∧ s = .createTable (tableOf n (es ++ more)) := by
  rw [tokens_append]
  have helements : (commaList tableElement).run ctx (f.afterLeft rest) = .ok (es ++ more, [r]) :=
    h.elements_read.run_commaList hmore
  have hexists : ifNotExists.run ctx (f.afterTable rest) = .ok (false, f.afterTable rest) := by
    refine run_choice_of_ne ?_
    have hname := h.unconditional
    unfold afterTable
    cases hf : f.name with
    | nil => exact current_ne h.left_kind nofun
    | cons t ts =>
      rw [hf] at hname
      exact current_ne rfl (hname t rfl)
  refine run_statement_table hstop h.create_kind h.table_kind hexists h.name_read ?_
  refine run_tableElements h.left_kind hr ?_ helements
  cases hts : f.afterLeft rest with
  | nil => simp [afterLeft] at hts
  | cons t ts =>
    rw [hts, run_commaList] at helements
    cases hfirst : tableElement.run ctx (t :: ts) with
    | error e =>
      rw [hfirst] at helements
      cases helements
    | ok o => exact ne_rightParen_of_tableElement hfirst

/-- What is read in front of the comma is read in front of a key or a reference of the column. -/
theorem there {comma next : Token} (h : f.Reads ctx (comma :: rest) column n es d)
    (hshares : Shares ctx ctx' f.tokens) (hcomma : comma.kind = .comma)
    (hnext : partsClauses next.kind = true) : f.Reads ctx' (next :: rest') column n es d := by
  let F : Fork :=
    { here := ctx, there := ctx', row := f.tokens, comma, rest, next, rest', kind_comma := hcomma
      parts_next := hnext, shares := hshares }
  have hrow : f.afterTable [] ⊆ F.row := by
    rintro t ht
    exact List.mem_cons_of_mem _ (List.mem_cons_of_mem _ ht)
  have hclauses : f.clauses ⊆ F.row := by
    intro t ht
    simp [F, tokens, afterTable, afterLeft, afterColumn, ht]
  obtain ⟨t, htype, hclaused⟩ := h.column_read
  refine
    { h with
      name_read := ?_
      elements_read := h.elements_read.elements_there (hshares.mono ?_)
      column_read := ⟨t, ?_, ?_⟩ }
  · have hname : objectName.run F.here (f.afterTable [] ++ F.behind) =
        .ok (n, f.left :: f.afterLeft [] ++ F.behind) := by
      rw [afterTable_append, List.cons_append, afterLeft_append]
      exact h.name_read
    rw [← afterTable_append, ← afterLeft_append]
    exact Fork.local_objectName.read hrow hname
  · intro t ht
    simp [tokens, afterTable, afterLeft, ht]
  · rw [← afterColumn_append] at htype ⊢
    have hend := hclaused.run_clauses.trans (run_clauses_at_end (.inl hcomma))
    exact Fork.read_typeRef_of_clauses (F := F) htype hend
  · have hclaused : Claused columnClause F.here ⟨Column.named column (some t), [], none⟩
        (f.clauses ++ F.behind) d ([] ++ F.behind) := hclaused
    exact Fork.local_claused inferInstance hclauses hclaused

end Reads

end TableFront

theorem InlineRule.exists_head {column : String} {ks ks' : List Kind} (h : InlineRule column ks ks') :
    (∃ k more, ks = k :: more ∧ ∀ t : Token, t.kind = k → startsTableConstraint t = true) ∧
      ∃ k more, ks' = k :: more ∧ partsClauses k = true := by
  have hstart {k : Token.Keyword} (hk : k = .CONSTRAINT ∨ k = .PRIMARY ∨ k = .UNIQUE ∨ k = .FOREIGN)
      (t : Token) (ht : t.kind = .keyword k) : startsTableConstraint t = true := by
    unfold startsTableConstraint
    rw [ht]
    rcases hk with rfl | rfl | rfl | rfl <;> rfl
  cases h with
  | unnamed key =>
    cases key with
    | primaryKey => exact ⟨⟨_, _, rfl, hstart (by simp)⟩, _, _, rfl, rfl⟩
    | unique => exact ⟨⟨_, _, rfl, hstart (by simp)⟩, _, _, rfl, rfl⟩
    | foreignKey => exact ⟨⟨_, _, rfl, hstart (by simp)⟩, _, _, rfl, rfl⟩
  | named => exact ⟨⟨_, _, rfl, hstart (by simp)⟩, _, _, rfl, rfl⟩

theorem run_tableElement_constraint {t : Token} {k : TableConstraint}
    (ht : startsTableConstraint t = true) (h : tableConstraint.run ctx (t :: ts) = .ok (k, rest)) :
    tableElement.run ctx (t :: ts) = .ok (([], [k]), rest) := by
  rw [tableElement, run_bind_of_ok run_current, show ctx.current (t :: ts) = t from rfl, ht]
  exact run_bind_of_ok h

/-- The elements of a table whose last key is written at the table. -/
def keyAtTable (es : List TableElement) (d : ColumnDraft) (l : Location) (k : TableConstraint) :
    List TableElement :=
  es ++ [([⟨d.column, l⟩], d.constraints), ([], [k])]

/-- The elements of a table whose last key is written in its column. -/
def keyInColumn (es : List TableElement) (d : ColumnDraft) (l : Location) (k : TableConstraint)
    (l' : Location) : List TableElement :=
  let d' := { d with pendingName := k.name }.withKey k.kind l'
  es ++ [([⟨d'.column, l⟩], d'.constraints)]

variable {f : TableFront} {column : String} {n : ObjectName} {es : List TableElement} {d : ColumnDraft}
  {comma r r' : Token} {xs ys : List Token} {k : TableConstraint}

/-- Both statements have the same elements in front, and the same key in the end. -/
theorem TableFront.Reads.run_statements (h : f.Reads ctx (comma :: (xs ++ [r])) column n es d)
    (hshares : Shares ctx ctx' f.tokens) (hcomma : comma.kind = .comma) (hr : r.kind = .rightParen)
    (hr' : r'.kind = .rightParen) (hrule : InlineRule column (xs.map (·.kind)) (ys.map (·.kind)))
    (hx : tableConstraint.run ctx (xs ++ [r]) = .ok (k, [r])) :
    k.columns = [d.column.name] ∧ k.inColumn = false ∧ (∀ e, k.kind ≠ .check e) ∧ ∃ l l',
      (∀ s, statement.run ctx (f.tokens ++ comma :: (xs ++ [r])) = .ok (s, []) ↔
        (primaryKeys (keyAtTable es d l k)).length ≤ 1 ∧
          s = .createTable (tableOf n (keyAtTable es d l k))) ∧
      ∀ s, statement.run ctx' (f.tokens ++ (ys ++ [r'])) = .ok (s, []) ↔
        (primaryKeys (keyInColumn es d l k l')).length ≤ 1 ∧
          s = .createTable (tableOf n (keyInColumn es d l k l')) := by
  have hstops := hshares.stop_here.trans hshares.stop_there.symm
  obtain ⟨hcolumns, hin, hcheck, l', hclaused⟩ := hrule.read hstops hr hr' h.pendingName_eq hx
  obtain ⟨⟨w, ws, hws, hstart⟩, w', ws', hws', hparts⟩ := hrule.exists_head
  refine ⟨by rw [hcolumns, h.name_eq], hin, hcheck, ctx.locate f.column, l', fun s => ?_, fun s => ?_⟩
  · refine h.run_statement hshares.stop_here hr ?_
    obtain ⟨x, xs, rfl, hk, -⟩ := List.map_eq_cons_iff.1 hws
    have helement : tableElement.run ctx (x :: xs ++ [r]) = .ok (([], [k]), [r]) :=
      run_tableElement_constraint (hstart x hk) hx
    have hlast : (commaList tableElement).run ctx (x :: xs ++ [r]) = .ok ([([], [k])], [r]) := by
      rw [run_commaList, helement]
      exact if_neg (by rw [hr]; nofun)
    rw [run_commaList, h.run_columnDef (run_clauses_at_end (.inl hcomma))]
    refine (if_pos hcomma).trans ?_
    rw [hlast]
    rfl
  · obtain ⟨y, ys, rfl, hk, -⟩ := List.map_eq_cons_iff.1 hws'
    have hthere : f.Reads ctx' (y :: (ys ++ [r'])) column n es d :=
      h.there hshares hcomma (by rw [hk]; exact hparts)
    refine hthere.run_statement hshares.stop_there hr' ?_
    have hclauses := hclaused.run_clauses.trans (run_clauses_at_end (.inr hr'))
    rw [run_commaList, hthere.run_columnDef hclauses]
    have hplace : ctx'.locate f.column = ctx.locate f.column :=
      congrArg f.column.location hshares.source_eq.symm
    rw [hplace]
    exact if_neg (by rw [hr']; nofun)

end DdlCatalog.Grammar
