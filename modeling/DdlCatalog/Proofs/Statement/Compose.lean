import DdlCatalog.Proofs.Statement.Split
import DdlCatalog.Proofs.Token.Compose

/-! # Statements of two texts in one
A semicolon outside of parentheses ends the last statement of the text in front of it, and the text
behind it is cut as by itself. -/

namespace DdlCatalog

open Token (separator tokenize)
open Text (byteLength)

variable {n limit depth : Nat} {run run' ts ts' : List Token} {t stop stop' semi : Token}

/-- A token that ends a statement where so many parentheses are open. -/
def Closes (depth : Nat) (t : Token) : Prop := t.kind = .eof ∨ t.kind = .semicolon ∧ depth = 0

theorem exists_lastStatement_eq (run : List Token) (t : Token) :
    ∃ offset anchor, lastStatement run = (RawStatement.ofRun? run offset anchor).toList := by
  unfold lastStatement
  split
  · exact ⟨_, _, rfl⟩
  · next hnone =>
    obtain rfl := List.getLast?_eq_none_iff.1 hnone
    exact ⟨0, t, rfl⟩

theorem exists_splitFrom_eq (h : Closes depth t) (run : List Token) :
    ∃ offset anchor, splitFrom depth run [t] = (RawStatement.ofRun? run offset anchor).toList := by
  unfold splitFrom
  split_ifs with heof hsemi
  · exact exists_lastStatement_eq run t
  · exact ⟨_, _, List.append_nil _⟩
  · exact absurd h (not_or.2 ⟨heof, hsemi⟩)

theorem forall₂_ofRun? (h : List.Forall₂ (Token.Moves n limit) run run') (offset offset' : Nat)
    (anchor anchor' : Token) :
    List.Forall₂ (RawStatement.Moves n limit) (RawStatement.ofRun? run offset anchor).toList
      (RawStatement.ofRun? run' offset' anchor').toList := by
  cases h with
  | nil => exact .nil
  | cons first more => exact .cons ⟨.cons first more, rfl, rfl⟩ .nil

/-- Where tokens are cut depends on their kinds. What ends the last statement does not matter. -/
theorem forall₂_splitFrom (hts : List.Forall₂ (Token.Moves n limit) ts ts')
    (hrun : List.Forall₂ (Token.Moves n limit) run run')
    (hstop : Closes (ts.foldl depthAfter depth) stop)
    (hstop' : Closes (ts.foldl depthAfter depth) stop') :
    List.Forall₂ (RawStatement.Moves n limit) (splitFrom depth run (ts ++ [stop]))
      (splitFrom depth run' (ts' ++ [stop'])) := by
  induction hts generalizing depth run run' with
  | nil =>
    rw [List.foldl_nil] at hstop hstop'
    obtain ⟨offset, anchor, hsplit⟩ := exists_splitFrom_eq hstop run
    obtain ⟨offset', anchor', hsplit'⟩ := exists_splitFrom_eq hstop' run'
    rw [List.nil_append, List.nil_append, hsplit, hsplit']
    exact forall₂_ofRun? hrun ..
  | @cons t t' ts ts' ht _ ih =>
    rw [List.cons_append, List.cons_append, splitFrom, splitFrom, ← ht.kind,
      ← depthAfter_congr ht.kind]
    rw [List.foldl_cons] at hstop hstop'
    split_ifs with heof hsemi
    · obtain ⟨offset, anchor, hlast⟩ := exists_lastStatement_eq run t
      obtain ⟨offset', anchor', hlast'⟩ := exists_lastStatement_eq run' t'
      rw [hlast, hlast']
      exact forall₂_ofRun? hrun ..
    · have hzero : depthAfter depth t = 0 := by rw [depthAfter, hsemi.1, hsemi.2]
      rw [hzero] at hstop hstop'
      exact List.rel_append (forall₂_ofRun? hrun ..) (ih .nil hstop hstop')
    · exact ih (List.rel_append hrun (.cons ht .nil)) hstop hstop'

/-- Behind a semicolon outside of parentheses cutting starts anew. -/
theorem splitFrom_append_semicolon (hsemi : semi.kind = .semicolon)
    (heof : ∀ t ∈ ts, t.kind ≠ .eof) (hdepth : ts.foldl depthAfter depth = 0)
    (run more : List Token) :
    splitFrom depth run (ts ++ semi :: more) =
      splitFrom depth run (ts ++ [semi]) ++ splitFrom 0 [] more := by
  induction ts generalizing depth run with
  | nil =>
    obtain rfl : depth = 0 := hdepth
    have hopen : ¬semi.kind = .eof := by rw [hsemi]; nofun
    rw [List.nil_append, List.nil_append, splitFrom, splitFrom, if_neg hopen, if_neg hopen,
      if_pos ⟨hsemi, rfl⟩, if_pos ⟨hsemi, rfl⟩, List.append_assoc]
    rfl
  | cons t ts ih =>
    have hmore : ∀ t ∈ ts, t.kind ≠ .eof := fun u hu => heof u (List.mem_cons_of_mem t hu)
    have hne : ¬t.kind = .eof := heof t (List.mem_cons_self ..)
    rw [List.foldl_cons] at hdepth
    rw [List.cons_append, List.cons_append, splitFrom, splitFrom, if_neg hne, if_neg hne]
    split_ifs with hends
    · have hzero : depthAfter depth t = 0 := by rw [depthAfter, hends.1, hends.2]
      rw [hzero] at hdepth
      rw [ih hmore hdepth, List.append_assoc]
    · exact ih hmore hdepth _

/-- The parentheses that are open at the end of a text. Closing ones that match none are passed
over. -/
def openParentheses? (source : String) (text : List Char) : Option Nat :=
  (tokenize source text).toOption.map (·.foldl depthAfter 0)

theorem foldl_depthAfter_eq (h : List.Forall₂ (Token.Moves n limit) ts ts') (depth : Nat) :
    ts.foldl depthAfter depth = ts'.foldl depthAfter depth := by
  induction h generalizing depth with
  | nil => rfl
  | cons first _ ih => rw [List.foldl_cons, List.foldl_cons, depthAfter_congr first.kind, ih]

theorem openParentheses?_eq {source : String} {text : List Char} {tokens : List Token}
    (h : tokenize source text = .ok tokens) (hts : Token.Recurs n limit ts tokens) :
    openParentheses? source text = some (ts.foldl depthAfter 0) := by
  cases hts with
  | @intro us e moves _ eof =>
    have hlast (depth : Nat) : depthAfter depth e = depth := by rw [depthAfter, eof]
    rw [openParentheses?, h, foldl_depthAfter_eq moves]
    show some ((us ++ [e]).foldl depthAfter 0) = _
    rw [List.foldl_append, List.foldl_cons, hlast]
    rfl

/-- What recurs in another text is cut as by itself if no parenthesis is open where it is ended. -/
theorem Token.Recurs.forall₂_splitTokens {tokens : List Token} (h : Token.Recurs n limit ts tokens)
    (hstop : Closes (ts.foldl depthAfter 0) stop) :
    List.Forall₂ (RawStatement.Moves n limit) (splitTokens (ts ++ [stop])) (splitTokens tokens) := by
  cases h with
  | intro moves _ eof => exact forall₂_splitFrom moves .nil hstop (.inl eof)

/-- A text in which no parenthesis is left open is cut in front of another one as by itself. -/
theorem exists_splitText_append {source : String} {a b : List Char} {as bs : List RawStatement}
    (ha : splitText source a = .ok as) (hb : splitText source b = .ok bs)
    (hopen : openParentheses? source a = some 0) :
    ∃ as' bs', splitText source (a ++ separator ++ b) = .ok (as' ++ bs') ∧
      List.Forall₂ (RawStatement.Moves 0 (byteLength a)) as' as ∧
      List.Forall₂ (RawStatement.Moves (byteLength (a ++ separator)) (byteLength b)) bs' bs := by
  obtain ⟨tokens, htokensA, rfl⟩ := exists_tokens_of_splitText ha
  obtain ⟨tokens', htokensB, rfl⟩ := exists_tokens_of_splitText hb
  obtain ⟨ts, semi, us, e, htokens, hsemi, he, hts, hus⟩ :=
    Token.exists_tokenize_append htokensA htokensB
  have hdepth : ts.foldl depthAfter 0 = 0 :=
    Option.some.inj ((openParentheses?_eq htokensA hts).symm.trans hopen)
  refine ⟨splitTokens (ts ++ [semi]), splitTokens (us ++ [e]), ?_,
    hts.forall₂_splitTokens (.inr ⟨hsemi, hdepth⟩), hus.forall₂_splitTokens (.inl he)⟩
  have hkinds : ∀ t ∈ ts, t.kind ≠ .eof := by
    cases hts with
    | intro _ kinds _ => exact kinds
  rw [splitText, htokens]
  exact congrArg Except.ok (splitFrom_append_semicolon hsemi hkinds hdepth [] _)

end DdlCatalog
