import DdlCatalog.Proofs.Cursor.Layout
import DdlCatalog.Proofs.Grammar.Excerpt

/-! # Loops of cursors
Lists, clauses and groups are read by loops. Each round of a loop either is the last one or takes a token,
so that no loop takes more rounds than there are tokens. -/

namespace DdlCatalog.Grammar

open Text (Location)

namespace Layout

variable {α β σ : Type} {K : Layout} {i j : Nat} {r : Cursor α} {p : Parser α}

theorem accept_of_eq {kind : Token.Kind} (hi : i < K.last) (h : (K.token i).kind = kind) :
    Cursor.accept kind K.tape i = .ok (.ok true, i + 1) := by
  have hat : Cursor.at? kind K.tape i = .ok (.ok true, i) :=
    (bind_of_ok (current_at (Nat.le_of_lt hi))).trans (by rw [decide_eq_true h]; rfl)
  exact (bind_of_ok hat).trans (bind_of_ok (advance_at hi))

theorem accept_of_ne {kind : Token.Kind} (hi : i ≤ K.last) (h : (K.token i).kind ≠ kind) :
    Cursor.accept kind K.tape i = .ok (.ok false, i) := by
  have hat : Cursor.at? kind K.tape i = .ok (.ok false, i) :=
    (bind_of_ok (current_at hi)).trans (by rw [decide_eq_false h]; rfl)
  exact (bind_of_ok hat).trans rfl

theorem atEnd_at (hi : i ≤ K.last) :
    Cursor.atEnd K.tape i = .ok (.ok (decide ((K.token i).kind = .eof)), i) :=
  bind_of_ok (current_at hi)

theorem run_commaList_left {a : α} (hj : j ≤ K.last) (h : p.run K.ctx (K.left i) = .ok (a, K.left j)) :
    (Parser.commaList p).run K.ctx (K.left i) =
      if (K.token j).kind = .comma then
        ((Parser.commaList p).run K.ctx (K.left (j + 1))).map fun more => (a :: more.1, more.2)
      else .ok ([a], K.left j) := by
  rw [Parser.run_commaList, h]
  rcases Nat.lt_or_eq_of_le hj with hlt | rfl
  · simp only [Except.bind]
    rw [left_of_lt hlt]
  · have hstop : (K.token K.last).kind ≠ .comma := by
      rw [token_last, K.stop_kind]
      decide
    simp only [Except.bind]
    rw [if_neg hstop, left_last]

instance follows_commaList [K.Follows r p] : K.Follows (Cursor.commaList r) (Parser.commaList p) where
  at_position i hi := by
    let target (as : List α) (i : Nat) : Except Error (List α × List Token) :=
      ((Parser.commaList p).run K.ctx (K.left i)).map fun o => (as ++ o.1, o.2)
    have hempty : target [] i = (Parser.commaList p).run K.ctx (K.left i) := by
      show Except.map _ _ = _
      cases (Parser.commaList p).run K.ctx (K.left i) <;> rfl
    unfold FollowsAt
    rw [← hempty]
    refine loop_answers (fun as i _ hi => ?_) [] hi
    obtain ⟨o, hr, hanswers⟩ := followsAt (r := r) (p := p) hi
    generalize hp : p.run K.ctx (K.left i) = res at hanswers
    cases hanswers with
    | error e le =>
      refine ⟨_, bind_of_error hr, .error le ?_⟩
      show Except.map _ _ = _
      rw [Parser.run_commaList, hp]
      rfl
    | value a le =>
      rename_i j
      have hrun := run_commaList_left le hp
      by_cases hcomma : (K.token j).kind = .comma
      · have hj : j < K.last := lt_of_token (by rw [hcomma]; exact nofun)
        have hlt : i < j + 1 := Nat.lt_succ_of_le (le_of_run hi hp)
        refine ⟨_, (bind_of_ok hr).trans (bind_of_ok (accept_of_eq hj hcomma)), .again hlt hj ?_⟩
        show Except.map _ _ = Except.map _ _
        rw [hrun, if_pos hcomma]
        cases (Parser.commaList p).run K.ctx (K.left (j + 1)) <;> simp [Except.map]
      · refine ⟨_, (bind_of_ok hr).trans (bind_of_ok (accept_of_ne le hcomma)), .done le ?_⟩
        show Except.map _ _ = _
        rw [hrun, if_neg hcomma]
        rfl

/-- What a cursor answers in front of a word, as a parser gives it that has taken the word. Where no clause
begins the cursor stays. -/
inductive Taken (K : Layout) (i : Nat) :
    Except Error (Option σ) × Nat → Except Error (Option σ × List Token) → Prop where
  | stays (rest : List Token) : Taken K i (.ok none, i) (.ok (none, rest))
  | goes (s : σ) {j : Nat} (lt : i < j) (le : j ≤ K.last) : Taken K i (.ok (some s), j) (.ok (some s, K.left j))
  | error (e : Error) {j : Nat} (le : j ≤ K.last) : Taken K i (.error e, j) (.error e)

/-- The cursor in front of a word reads the clause that the parser reads behind it. -/
def BeginsAt (K : Layout) (i : Nat) (r : Cursor (Option σ)) (q : Parser (Option σ)) : Prop :=
  ∃ o, r K.tape i = .ok o ∧ K.Taken i o (q.run K.ctx (K.left (i + 1)))

/-- The cursor reads the clause with its first word, wherever this stands. -/
class Begins (K : Layout) (word : Token) (r : Cursor (Option σ)) (q : Parser (Option σ)) : Prop where
  at_word : ∀ i < K.last, K.token i = word → K.BeginsAt i r q

/-- The parser goes on with a clause or fails. -/
class GoesOn (K : Layout) (q : Parser (Option σ)) : Prop where
  ne_none : ∀ ts rest, q.run K.ctx ts ≠ .ok (none, rest)

section GoesOn

variable {c : Parser β} {f : β → Parser (Option σ)} {q q' : Parser (Option σ)}

instance goesOn_some (s : σ) : K.GoesOn (pure (some s)) where
  ne_none _ _ h := nomatch (Prod.mk.inj (Except.ok.inj h)).1

instance goesOn_bind [h : ∀ a, K.GoesOn (f a)] : K.GoesOn (c >>= f) where
  ne_none ts rest hrun := by
    obtain ⟨a, mid, -, hmore⟩ := Parser.run_bind_ok hrun
    exact (h a).ne_none mid rest hmore

instance goesOn_ite {b : Prop} [Decidable b] [K.GoesOn q] [K.GoesOn q'] :
    K.GoesOn (if b then q else q') := by
  split <;> infer_instance

instance goesOn_expected (what : String) :
    K.GoesOn (Parser.expected what : Parser (Option σ)) := ⟨nofun⟩

end GoesOn

section Begins

variable {word : Token} {s : Cursor (Option σ)} {q q' : Parser (Option σ)}

instance begins_none : K.Begins word (pure none : Cursor (Option σ)) (pure none) where
  at_word _ _ _ := ⟨_, rfl, .stays _⟩

instance begins_word [K.Follows s q] [hq : K.GoesOn q] :
    K.Begins word (Cursor.advance >>= fun _ => s) q where
  at_word i hi _ := by
    obtain ⟨o, hs, hanswers⟩ := followsAt (r := s) (p := q) hi
    refine ⟨o, (bind_of_ok (advance_at hi)).trans hs, ?_⟩
    have hne := hq.ne_none (K.left (i + 1))
    generalize hres : q.run K.ctx (K.left (i + 1)) = res at hanswers hne
    cases hanswers with
    | error e le => exact .error e le
    | value a le =>
      cases a with
      | none => exact absurd rfl (hne _)
      | some a => exact .goes a (le_of_run hi hres) le

instance begins_errorAt (l : Location) (message : String) :
    K.Begins word (Cursor.errorAt l message : Cursor (Option σ)) (Parser.errorAt l message) where
  at_word _ hi _ := ⟨_, rfl, .error _ (Nat.le_of_lt hi)⟩

instance begins_unsupported (construct : String) :
    K.Begins word (Cursor.unsupported construct : Cursor (Option σ)) (Parser.unsupported construct) where
  at_word i hi _ := ⟨_, unsupported_at K construct i, .error _ (Nat.le_of_lt hi)⟩

instance begins_ite {b : Prop} [Decidable b] {s' : Cursor (Option σ)} [K.Begins word s q] [K.Begins word s' q'] :
    K.Begins word (if b then s else s') (if b then q else q') := by
  split <;> infer_instance

end Begins

/-- A step of the cursor alone, which does not move it. -/
theorem beginsAt_of_read {a : α} {k : α → Cursor (Option σ)} {q : Parser (Option σ)}
    (hr : r K.tape i = .ok (.ok a, i)) (hk : K.BeginsAt i (k a) q) : K.BeginsAt i (r >>= k) q := by
  unfold BeginsAt
  rw [bind_of_ok hr]
  exact hk

theorem run_clauses_left (clause : σ → Token → Parser (Option σ)) (s : σ) (hi : i < K.last) :
    (Parser.clauses clause s).run K.ctx (K.left i) =
      ((clause s (K.token i)).run K.ctx (K.left (i + 1))).bind fun o =>
        match o.1 with
        | none => .ok (s, K.left i)
        | some s => (Parser.clauses clause s).run K.ctx o.2 := by
  rw [left_of_lt hi]
  exact Parser.run_clauses ..

theorem follows_clauses {clause : σ → Token → Cursor (Option σ)} {clause' : σ → Token → Parser (Option σ)}
    [hword : ∀ s t, K.Begins t (clause s t) (clause' s t)] (hend : ∀ s, clause s K.ctx.stop = pure none)
    (s : σ) : K.Follows (Cursor.clauses clause s) (Parser.clauses clause' s) where
  at_position i hi := by
    let target (s : σ) (i : Nat) := (Parser.clauses clause' s).run K.ctx (K.left i)
    suffices hround : ∀ s, ∀ j, i ≤ j → j ≤ K.last → ∃ o, _ ∧ K.Turns target s j o from
      loop_answers hround s hi
    intro s i _ hi
    rcases Nat.lt_or_eq_of_le hi with hlt | rfl
    · obtain ⟨o, hr, htaken⟩ := (hword s (K.token i)).at_word i hlt rfl
      have hrun := run_clauses_left clause' s hlt
      generalize (clause' s (K.token i)).run K.ctx (K.left (i + 1)) = res at hrun htaken
      cases htaken with
      | stays rest =>
        exact ⟨_, (bind_of_ok (current_at hi)).trans (bind_of_ok hr), .done hi hrun⟩
      | goes s' lt le =>
        exact ⟨_, (bind_of_ok (current_at hi)).trans (bind_of_ok hr), .again lt le hrun⟩
      | error e le =>
        exact ⟨_, (bind_of_ok (current_at hi)).trans (bind_of_error hr), .error le hrun⟩
    · have hr : clause s (K.token K.last) K.tape K.last = .ok (.ok none, K.last) := by
        rw [token_last, hend]
        rfl
      refine ⟨_, (bind_of_ok (current_at hi)).trans (bind_of_ok hr), .done hi ?_⟩
      show (Parser.clauses clause' s).run K.ctx (K.left K.last) = _
      rw [left_last, Parser.run_clauses]

theorem left_inj (hi : i ≤ K.last) (hj : j ≤ K.last) (h : K.left i = K.left j) : i = j := by
  have hlength := congrArg List.length h
  rw [length_left, length_left] at hlength
  omega

theorem eq_of_answers {o : Except Error α × Nat} {a : α} (hj : j ≤ K.last)
    (h : K.Answers o (.ok (a, K.left j))) : o = (.ok a, j) := by
  generalize hres : Except.ok (a, K.left j) = res at h
  cases h with
  | value a' le =>
    obtain ⟨rfl, hleft⟩ := Prod.mk.inj (Except.ok.inj hres)
    rw [left_inj hj le hleft]
  | error e le => cases hres

theorem left_add (K : Layout) (i n : Nat) : (K.left i).drop n = K.left (i + n) := by
  rw [left, left, List.drop_drop]

theorem run_takeMeasured_left (message : String) (measure : Context → List Token → Except Token Nat)
    (i : Nat) :
    (Parser.takeMeasured message measure).run K.ctx (K.left i) =
      match measure K.ctx (K.left i) with
      | .ok n => .ok ((K.left i).take n, K.left (i + n))
      | .error t => .error (.parse (K.ctx.locate t) message) := by
  unfold Parser.run Parser.takeMeasured
  cases measure K.ctx (K.left i) with
  | error t => rfl
  | ok n =>
    show Except.ok ((K.left i).take n, (K.left i).drop n) = _
    rw [left_add]

/-- Where a group with so many open parentheses ends. -/
def groupEnd (K : Layout) (depth i : Nat) : Except Error (Unit × List Token) :=
  match depth with
  | 0 => .ok ((), K.left i)
  | depth + 1 =>
    match Parser.groupLength K.ctx.stop depth (K.left i) with
    | .ok n => .ok ((), K.left (i + n))
    | .error t => .error (.parse (K.ctx.locate t) "unbalanced parentheses")

theorem groupRound_at {depth d : Nat} (hi : i < K.last)
    (hopen : Cursor.openBehind (depth + 1) (K.token i) = pure d) :
    Cursor.groupRound (depth + 1) K.tape i = .ok (.ok (.again d), i + 1) := by
  have hread : Cursor.groupRound (depth + 1) K.tape i = _ := bind_of_ok (current_at (Nat.le_of_lt hi))
  rw [hread, hopen]
  exact bind_of_ok (advance_at hi)

theorem groupEnd_eof {depth : Nat} (hi : i ≤ K.last) (hk : (K.token i).kind = .eof) :
    K.groupEnd (depth + 1) i =
      .error (.parse (K.ctx.locate (K.token i)) "unbalanced parentheses") := by
  unfold groupEnd
  rcases Nat.lt_or_eq_of_le hi with hlt | rfl
  · rw [left_of_lt hlt]
    simp only [Parser.groupLength, hk]
  · rw [left_last, token_last]
    simp only [Parser.groupLength]

theorem groupEnd_close (hi : i < K.last) (hk : (K.token i).kind = .rightParen) :
    K.groupEnd 1 i = K.groupEnd 0 (i + 1) := by
  unfold groupEnd
  rw [left_of_lt hi]
  simp only [Parser.groupLength, hk]

/-- A group goes on behind a token that does not close it. -/
theorem groupEnd_inside {depth d : Nat} (hi : i < K.last)
    (h : Parser.StaysInside (K.token i) depth d) :
    K.groupEnd (depth + 1) i = K.groupEnd (d + 1) (i + 1) := by
  unfold groupEnd
  rw [left_of_lt hi]
  simp only [h.groupLength_eq]
  cases Parser.groupLength K.ctx.stop d (K.left (i + 1)) with
  | error t => rfl
  | ok n =>
    show Except.ok ((), K.left (i + (n + 1))) = Except.ok ((), K.left (i + 1 + n))
    rw [show i + (n + 1) = i + 1 + n by omega]

/-- No parenthesis closes more than there are open. -/
theorem openBehind_cases (depth : Nat) (t : Token) :
    t.kind = .eof ∧ Cursor.openBehind (depth + 1) t = Cursor.error "unbalanced parentheses" ∨
      t.kind = .rightParen ∧ depth = 0 ∧ Cursor.openBehind (depth + 1) t = pure 0 ∨
      ∃ d, Parser.StaysInside t depth d ∧ Cursor.openBehind (depth + 1) t = pure (d + 1) := by
  unfold Cursor.openBehind
  split
  · next hk => exact .inr (.inr ⟨depth + 1, .opens hk, rfl⟩)
  · next hk =>
    rw [minus_of_le (Nat.succ_pos depth)]
    cases depth with
    | zero => exact .inr (.inl ⟨hk, rfl, rfl⟩)
    | succ depth => exact .inr (.inr ⟨depth, .closes hk, rfl⟩)
  · next hk => exact .inl ⟨hk, rfl⟩
  · next hopens hcloses heof => exact .inr (.inr ⟨depth, .other hopens hcloses heof, rfl⟩)

theorem turns_groupRound (depth : Nat) (hi : i ≤ K.last) :
    ∃ o, Cursor.groupRound depth K.tape i = .ok o ∧ K.Turns K.groupEnd depth i o := by
  cases depth with
  | zero => exact ⟨_, rfl, .done hi rfl⟩
  | succ depth =>
    have hlt (h : (K.token i).kind ≠ .eof) : i < K.last := lt_of_token h
    rcases openBehind_cases depth (K.token i) with ⟨hk, hopen⟩ | ⟨hk, rfl, hopen⟩ | ⟨d, hinside, hopen⟩
    · have hread : Cursor.groupRound (depth + 1) K.tape i = _ := bind_of_ok (current_at hi)
      rw [hopen] at hread
      exact ⟨_, hread.trans (bind_of_error (bind_of_ok (location_at hi))), .error hi (groupEnd_eof hi hk)⟩
    · have hi' := hlt (by rw [hk]; exact nofun)
      exact ⟨_, groupRound_at hi' hopen, .again (Nat.lt_succ_self i) hi' (groupEnd_close hi' hk)⟩
    · have hi' := hlt (by cases hinside <;> simp_all)
      exact ⟨_, groupRound_at hi' hopen, .again (Nat.lt_succ_self i) hi' (groupEnd_inside hi' hinside)⟩

instance follows_group : K.Follows Cursor.group Parser.group := by
  have hloop : K.Follows (Cursor.loop Cursor.groupRound 1) (do
      let _ ← Parser.takeMeasured "unbalanced parentheses" fun ctx ts =>
        Parser.groupLength ctx.stop 0 ts
      return ()) := by
    refine ⟨fun i hi => ?_⟩
    have hend : K.groupEnd 1 i = (do
        let _ ← Parser.takeMeasured "unbalanced parentheses" fun ctx ts =>
          Parser.groupLength ctx.stop 0 ts
        return () : Parser Unit).run K.ctx (K.left i) := by
      rw [Parser.run_bind, run_takeMeasured_left, groupEnd]
      cases Parser.groupLength K.ctx.stop 0 (K.left i) <;> rfl
    unfold FollowsAt
    rw [← hend]
    exact loop_answers (fun depth i _ hi => turns_groupRound depth hi) 1 hi
  unfold Cursor.group Parser.group
  infer_instance

def rest (K : Layout) (i : Nat) : List Token := (K.left i).takeWhile (·.kind ≠ .eof)

theorem take_left_rest (K : Layout) (i : Nat) : (K.left i).take (K.rest i).length = K.rest i :=
  (List.prefix_iff_eq_take.1 (List.takeWhile_prefix _)).symm

theorem add_length_rest_le (hi : i ≤ K.last) : i + (K.rest i).length ≤ K.last := by
  have hle : (K.rest i).length ≤ (K.left i).length := (List.takeWhile_prefix _).length_le
  rw [length_left] at hle
  omega

theorem rest_of_eof (hi : i ≤ K.last) (h : (K.token i).kind = .eof) : K.rest i = [] := by
  rcases Nat.lt_or_eq_of_le hi with hlt | rfl
  · rw [rest, left_of_lt hlt]
    exact List.takeWhile_cons_of_neg (by simp [h])
  · rw [rest, left_last]
    rfl

theorem rest_of_ne (h : (K.token i).kind ≠ .eof) : K.rest i = K.token i :: K.rest (i + 1) := by
  rw [rest, left_of_lt (lt_of_token h)]
  exact List.takeWhile_cons_of_pos (by simp [h])

theorem run_toEnd_left (K : Layout) (i : Nat) :
    Parser.toEnd.run K.ctx (K.left i) = .ok (K.rest i, K.left (i + (K.rest i).length)) := by
  show Except.ok ((K.left i).take (K.rest i).length, (K.left i).drop (K.rest i).length) = _
  rw [take_left_rest, left_add]

theorem foldToEnd_at {step : σ → Token → σ} (s : σ) (hi : i ≤ K.last) :
    Cursor.foldToEnd step s K.tape i =
      .ok (.ok ((K.rest i).foldl step s), i + (K.rest i).length) := by
  let target (s : σ) (i : Nat) : Except Error (σ × List Token) :=
    .ok ((K.rest i).foldl step s, K.left (i + (K.rest i).length))
  obtain ⟨o, hloop, hanswers⟩ : ∃ o, Cursor.foldToEnd step s K.tape i = .ok o ∧
      K.Answers o (target s i) := by
    refine loop_answers (fun s i _ hi => ?_) s hi
    by_cases heof : (K.token i).kind = .eof
    · have hat : Cursor.atEnd K.tape i = .ok (.ok true, i) := by rw [atEnd_at hi, decide_eq_true heof]
      refine ⟨_, bind_of_ok hat, .done hi ?_⟩
      show Except.ok _ = _
      rw [rest_of_eof hi heof]
      rfl
    · have hat : Cursor.atEnd K.tape i = .ok (.ok false, i) := by rw [atEnd_at hi, decide_eq_false heof]
      have hlt : i < K.last := lt_of_token heof
      refine ⟨_, (bind_of_ok hat).trans ((bind_of_ok (current_at hi)).trans (bind_of_ok (advance_at hlt))),
        .again (Nat.lt_succ_self i) hlt ?_⟩
      show Except.ok _ = Except.ok _
      rw [rest_of_ne heof, List.length_cons, List.foldl_cons, Nat.add_right_comm, Nat.add_assoc]
  rw [hloop, eq_of_answers (add_length_rest_le hi) hanswers]

instance follows_name : K.Follows Cursor.name Parser.name := by
  refine follows_next fun t => ?_
  cases t.name? <;> dsimp only <;> infer_instance

instance follows_objectName : K.Follows Cursor.objectName Parser.objectName := by
  unfold Cursor.objectName Parser.objectName
  infer_instance

instance follows_nameList : K.Follows Cursor.nameList Parser.nameList := by
  unfold Cursor.nameList Parser.nameList
  infer_instance

instance follows_string : K.Follows Cursor.string Parser.string := by
  refine follows_next fun t => ?_
  cases t.kind <;> dsimp only <;> infer_instance

instance follows_number : K.Follows Cursor.number Parser.number := by
  refine follows_next fun t => ?_
  cases t.kind <;> dsimp only <;> infer_instance

instance follows_ifNotExists : K.Follows Cursor.ifNotExists Parser.ifNotExists := by
  unfold Cursor.ifNotExists Parser.ifNotExists
  infer_instance

instance follows_nullsNotDistinct : K.Follows Cursor.nullsNotDistinct Parser.nullsNotDistinct := by
  unfold Cursor.nullsNotDistinct Parser.nullsNotDistinct
  infer_instance

end Layout

end DdlCatalog.Grammar
