import DdlCatalog.Proofs.Token.Seam

/-! # Cutting a text behind a token
A token is read the same when the text is cut right behind it, whatever follows. If the cut is made
further behind, it must not be made between two points or between the characters that open a
comment. -/

namespace DdlCatalog.Token

variable {a b : List Char} {c : Char}

/-- The characters in front of a cut and behind it are neither two points nor the start of a comment. -/
structure Parted (a b : List Char) : Prop where
  point : a.getLast? = some '.' → b.head? ≠ some '.'
  slash : a.getLast? = some '/' → b.head? ≠ some '*'
  minus : Apart a b

/-- Only the last character in front of a cut matters. -/
theorem Parted.of_getLast? {a' : List Char} (h : Parted a b)
    (hlast : ∀ d, a'.getLast? = some d → a.getLast? = some d) : Parted a' b :=
  ⟨fun hd => h.point (hlast _ hd), fun hd => h.slash (hlast _ hd), fun hd => h.minus (hlast _ hd)⟩

theorem Parted.of_append {a' : List Char} (h : Parted (a ++ a') b) : Parted a' b :=
  h.of_getLast? fun d hd => by rw [List.getLast?_append, hd]; rfl

theorem Parted.tail (h : Parted (c :: a) b) : Parted a b := Parted.of_append (a := [c]) h

theorem Parted.drop (h : Parted a b) (n : Nat) : Parted (a.drop n) b :=
  Parted.of_append (a := a.take n) (by rwa [List.take_append_drop])

/-- A text that starts neither with a point nor with a star. -/
def Clear (b : List Char) : Prop := b.head? ≠ some '.' ∧ b.head? ≠ some '*'

theorem Ends.clear (hb : Ends b) : Clear b := ⟨hb.head_ne rfl rfl, hb.head_ne rfl rfl⟩

theorem Clear.parted (hb : Clear b) (hab : Apart a b) : Parted a b :=
  ⟨fun _ => hb.1, fun _ => hb.2, hab⟩

theorem parted_of_last (h : a.getLast? = some ')') : Parted a b := by
  constructor <;> intro hlast <;> rw [h] at hlast <;> cases hlast

/-- Whether no token of the kind starts with a point or a star. -/
def Kind.startsClear : Kind → Bool
  | .number _ | .operator _ | .dot => false
  | _ => true

/-- At the end of a mantissa only a point looks at what follows it. -/
theorem mantissaLength_of_append {seenPoint : Bool}
    (hn : mantissaLength seenPoint (a ++ b) ≤ a.length)
    (hpoint : a.drop (mantissaLength seenPoint (a ++ b)) = ['.'] → b.head? ≠ some '.') :
    mantissaLength seenPoint a = mantissaLength seenPoint (a ++ b) := by
  fun_induction mantissaLength seenPoint a with
  | case1 seenPoint => exact (Nat.le_zero.1 hn).symm
  | case2 seenPoint c a hdigit ih =>
    simp only [List.cons_append, mantissaLength, hdigit, if_true, List.length_cons, Nat.add_comm 1,
      List.drop_succ_cons] at hn hpoint ⊢
    rw [ih (by omega) hpoint]
  | case3 seenPoint c a hdigit hc ih =>
    have hne : (a ++ b).head? ≠ some '.' := by
      intro hhead
      cases a with
      | nil => exact hpoint (by simp_all [mantissaLength]) hhead
      | cons d a => simp_all
    have hfull : mantissaLength seenPoint (c :: a ++ b) = mantissaLength true (a ++ b) + 1 := by
      simp_all [mantissaLength, Nat.add_comm]
    rw [hfull] at hn hpoint ⊢
    rw [Nat.add_comm, ih (by simpa using hn) hpoint]
  | case4 seenPoint c a hdigit hc =>
    cases a <;> simp_all [mantissaLength]

theorem exponentLength_of_append (hn : exponentLength (a ++ b) ≤ a.length) :
    exponentLength a = exponentLength (a ++ b) := by
  match a with
  | [] => exact (Nat.le_zero.1 hn).symm
  | [e] =>
    -- an exponent has at least two characters
    have hnone : exponentLength [e] = 0 := by simp [exponentLength]
    rw [hnone]
    simp only [exponentLength, List.singleton_append, List.length_singleton] at hn ⊢
    split at hn
    · next he =>
      split at hn
      · simp
      · next n hpos =>
        have := Nat.pos_of_ne_zero hpos
        omega
    · simp [*]
  | e :: s :: a =>
    have hhead : (s :: a ++ b).head? = (s :: a).head? := rfl
    have hdrop : (s :: a ++ b).drop (if (s :: a).head?.any isSign then 1 else 0) =
        (s :: a).drop (if (s :: a).head?.any isSign then 1 else 0) ++ b :=
      List.drop_append_of_le_length (by split <;> simp)
    have hle : (if (s :: a).head?.any isSign then 1 else 0) ≤ (s :: a).length := by split <;> simp
    rw [List.cons_append] at hn ⊢
    simp only [exponentLength, hhead, hdrop] at hn ⊢
    generalize (if (s :: a).head?.any isSign then 1 else 0) = signs at hn hle ⊢
    by_cases he : e = 'e' || e = 'E'
    · rw [if_pos he] at hn
      rw [takeWhile_of_append]
      rw [List.length_drop]
      rw [List.length_cons] at hn
      split at hn <;> omega
    · rw [if_neg he, if_neg he]

theorem numberLength_of_append
    (hcut : numberLength (a ++ b) = a.length ∨ (a.getLast? = some '.' → b.head? ≠ some '.'))
    (hn : numberLength (a ++ b) ≤ a.length) : numberLength a = numberLength (a ++ b) := by
  simp only [numberLength] at hcut hn ⊢
  have hle : mantissaLength false (a ++ b) ≤ a.length := by omega
  rw [List.drop_append_of_le_length hle] at hcut hn ⊢
  have hmantissa : mantissaLength false a = mantissaLength false (a ++ b) := by
    refine mantissaLength_of_append hle fun hpoint => ?_
    -- no exponent starts with the point that is left
    have hlength := congrArg List.length hpoint
    rw [List.length_drop] at hlength
    rcases hcut with hcut | hcut
    · have hnone : exponentLength (['.'] ++ b) = 0 := by simp [exponentLength]
      rw [hpoint, hnone] at hcut
      simp only [List.length_singleton] at hlength
      omega
    · apply hcut
      rw [← List.take_append_drop (mantissaLength false (a ++ b)) a, hpoint]
      exact List.getLast?_concat
  have hexponent : exponentLength (a.drop (mantissaLength false (a ++ b)) ++ b) ≤
      (a.drop (mantissaLength false (a ++ b))).length := by
    rw [List.length_drop]
    omega
  rw [hmantissa, exponentLength_of_append hexponent]

/-- The run of operator characters in front of a cut at which no comment starts. -/
theorem operatorRest_of_append
    (hcut : a <+: operatorRest (a ++ b) ∨ Parted a b) :
    operatorRest a = (operatorRest (a ++ b)).take a.length := by
  induction a with
  | nil => rfl
  | cons c a ih =>
    have hnone : a = [] → (c = '-' → b.head? ≠ some '-') ∧ (c = '/' → b.head? ≠ some '*') := by
      rintro rfl
      rcases hcut with hrun | hparted
      · constructor <;> rintro rfl hb <;> simp [operatorRest, hb] at hrun
      · exact ⟨fun hc => hparted.minus (by simp [hc]), fun hc => hparted.slash (by simp [hc])⟩
    have hmore : a <+: operatorRest (a ++ b) ∨ Parted a b := by
      rcases hcut with hrun | hparted
      · rw [List.cons_append, operatorRest] at hrun
        split_ifs at hrun
        all_goals simp_all
      · exact .inr hparted.tail
    have hminus : c = '-' → ((a ++ b).head? = some '-' ↔ a.head? = some '-') := by
      cases a <;> simp_all
    have hslash : c = '/' → ((a ++ b).head? = some '*' ↔ a.head? = some '*') := by
      cases a <;> simp_all
    simp only [List.cons_append, operatorRest, ih hmore]
    grind

/-- What is dropped at the end of a list may be cut off before. -/
theorem rdropWhile_take {p : Char → Bool} {cs : List Char} {n : Nat}
    (hn : (cs.rdropWhile p).length ≤ n) : (cs.take n).rdropWhile p = cs.rdropWhile p := by
  induction cs using List.reverseRecOn with
  | nil => simp
  | append_singleton cs d ih =>
    by_cases hle : (cs ++ [d]).length ≤ n
    · rw [List.take_of_length_le hle]
    · have hd : p d := by
        by_contra hd
        rw [List.rdropWhile_concat_neg _ _ _ hd] at hn
        exact hle hn
      rw [List.rdropWhile_concat_pos _ _ _ hd] at hn ⊢
      rw [List.take_append_of_le_length (by simp at hle; omega)]
      exact ih hn

theorem operatorText_of_append
    (hcut : (operatorText c (a ++ b)).length = a.length + 1 ∨ Parted a b)
    (hn : (operatorText c (a ++ b)).length ≤ a.length + 1) :
    operatorText c a = operatorText c (a ++ b) := by
  have hrun : operatorRest a = (operatorRest (a ++ b)).take a.length := by
    refine operatorRest_of_append (hcut.imp_left fun hlength => ?_)
    obtain ⟨op, hop, hstarts⟩ := operatorText_eq c (a ++ b)
    have hsame : op = a := by
      have ha : a <+: a ++ b := List.prefix_append a b
      have hlength : op.length = a.length := by simpa [hop] using hlength
      exact (List.prefix_of_prefix_length_le (hstarts.trans prefix_operatorRest) ha
        hlength.le).eq_of_length hlength
    exact hsame ▸ hstarts
  have htext (cs : List Char) : operatorText c cs =
      if (c :: operatorRest cs).any allowsTrailingSign then c :: operatorRest cs
      else c :: (operatorRest cs).rdropWhile isSign := rfl
  rw [htext] at hn
  rw [htext a, htext (a ++ b), hrun]
  by_cases hany : (c :: operatorRest (a ++ b)).any allowsTrailingSign
  · rw [if_pos hany, List.length_cons, Nat.add_le_add_iff_right] at hn
    rw [List.take_of_length_le hn]
  · have hnone : ¬(c :: (operatorRest (a ++ b)).take a.length).any allowsTrailingSign := by
      rw [← List.take_succ_cons]
      intro h
      obtain ⟨d, hd, hsign⟩ := List.any_eq_true.1 h
      exact hany (List.any_eq_true.2 ⟨d, List.mem_of_mem_take hd, hsign⟩)
    rw [if_neg hany, List.length_cons, Nat.add_le_add_iff_right] at hn
    rw [if_neg hany, if_neg hnone, rdropWhile_take hn]

namespace Lexeme

variable {lexeme : Lexeme}

theorem string_of_append (h : string (a ++ b) = .ok lexeme) (hn : lexeme.rest ≤ a.length) :
    string a = .ok lexeme := by
  unfold string at h ⊢
  split at h
  · next text n hq =>
    cases h
    rw [quotedRest?_of_append hq hn]
  · cases h

theorem escapedString_of_append (h : escapedString (a ++ b) = .ok lexeme)
    (hn : lexeme.rest ≤ a.length + 1) : escapedString a = .ok lexeme := by
  unfold escapedString at h ⊢
  split at h
  · next text n hq =>
    cases h
    rw [escapedRest?_of_append hq (Nat.le_of_succ_le_succ hn)]
  · cases h

theorem escapedString_pos (h : escapedString a = .ok lexeme) : 0 < lexeme.rest := by
  unfold escapedString at h
  split at h <;> cases h
  exact Nat.succ_pos _

theorem quotedIdentifier_of_append (h : quotedIdentifier (a ++ b) = .ok lexeme)
    (hn : lexeme.rest ≤ a.length) : quotedIdentifier a = .ok lexeme := by
  unfold quotedIdentifier at h ⊢
  split at h
  · cases h
  · next text n hne hq =>
    cases h
    rw [quotedRest?_of_append hq hn]
    cases text with
    | nil => exact absurd rfl hne
    | cons d text => rfl
  · cases h

theorem dollarQuoted_of_append {tag : List Char} (h : dollarQuoted tag (a ++ b) = .ok lexeme)
    (hn : lexeme.rest ≤ a.length) : dollarQuoted tag a = .ok lexeme := by
  unfold dollarQuoted at h ⊢
  dsimp only at h ⊢
  split at h
  · next body hbody =>
    cases h
    simp only [List.length_cons, List.length_append, List.length_nil] at hn
    rw [List.drop_append_of_le_length (by omega)] at hbody
    rw [before?_of_append hbody (by simp; omega)]
  · cases h

theorem length_tag_lt {rest tag : List Char} (h : dollarQuoted tag rest = .ok lexeme) :
    tag.length < lexeme.rest := by
  unfold dollarQuoted at h
  dsimp only at h
  split at h
  · cases h
    simp
    omega
  · cases h

theorem dollar_of_append (h : dollar (a ++ b) = .ok lexeme) (hn : lexeme.rest ≤ a.length) :
    dollar a = .ok lexeme := by
  unfold dollar at h ⊢
  split at h
  · next hdigits =>
    have hsame := takeWhile_of_append (a := a) (b := b) (p := Char.isDigit) (by simp [hdigits])
    rw [← hsame, hdigits]
    dsimp only at h ⊢
    split at h
    · next hmark =>
      have hlt := length_tag_lt h
      have htag := takeWhile_of_append (a := a) (b := b) (p := isTagChar) (by omega)
      rw [htag] at h hmark hlt
      rw [List.drop_append_of_le_length (by omega), List.head?_append_of_ne_nil] at hmark
      · rw [if_pos hmark]
        exact dollarQuoted_of_append h hn
      · rw [ne_eq, List.drop_eq_nil_iff]
        omega
    · cases h
  · next digits hdigits =>
    have hlength : lexeme.rest = ((a ++ b).takeWhile Char.isDigit).length := by
      unfold parameter at h
      split at h <;> cases h
      rfl
    have hsame := takeWhile_of_append (a := a) (b := b) (p := Char.isDigit) (by omega)
    rw [← hsame]
    split
    · next hnone => exact absurd hnone hdigits
    · exact h

theorem colon_of_append (hn : (colon (a ++ b)).rest ≤ a.length) : colon a = colon (a ++ b) := by
  cases a with
  | nil =>
    cases b with
    | nil => rfl
    | cons d b =>
      -- the other two tokens that start with a colon have more characters
      have hname : isWordStart d = true → isNameChar d = true := by
        simp only [isWordStart, isNameChar, Text.isAlphanumeric, Bool.or_eq_true]
        exact fun h => h.imp_right .inl
      simp only [colon, List.nil_append, List.length_nil] at hn ⊢
      split_ifs at hn ⊢ with hcolon hstart
      · cases hn
      · simp [hname hstart] at hn
      · rfl
  | cons d a =>
    simp only [colon, List.cons_append, List.length_cons] at hn ⊢
    split_ifs at hn ⊢ with hcolon hstart
    · rfl
    · rw [← List.cons_append] at hn ⊢
      rw [takeWhile_of_append hn]
    · rfl

theorem numberLength_pos (h : startsNumber c b = true) :
    0 < numberLength (c :: b) ∧ (c.isDigit = false → 1 < numberLength (c :: b)) := by
  simp only [startsNumber, Bool.or_eq_true, Bool.and_eq_true, decide_eq_true_eq] at h
  have hle : mantissaLength false (c :: b) ≤ numberLength (c :: b) := Nat.le_add_right ..
  rcases h with hdigit | ⟨rfl, hnext⟩
  · have hmantissa : mantissaLength false (c :: b) = 1 + mantissaLength false b := by
      rw [mantissaLength, if_pos (by simp [hdigit])]
    refine ⟨by omega, fun hnot => ?_⟩
    rw [hdigit] at hnot
    cases hnot
  · obtain ⟨d, hd, hdigit⟩ := (Option.any_eq_true ..).1 hnext
    obtain ⟨b, rfl⟩ := List.head?_eq_some_iff.1 hd
    have hne : d ≠ '.' := by
      rintro rfl
      cases hdigit
    have hmantissa : mantissaLength false ('.' :: d :: b) = 1 + (1 + mantissaLength true b) := by
      rw [mantissaLength, if_neg (by decide), if_pos (by simp [hne]), mantissaLength,
        if_pos (by simp [hdigit])]
    omega

theorem startsNumber_append (h : startsNumber c a = true) (b : List Char) :
    startsNumber c (a ++ b) = true := by
  cases a with
  | nil =>
    have hdigit : c.isDigit = true := by simpa [startsNumber] using h
    simp [startsNumber, hdigit]
  | cons d a => exact h

theorem startsNumber_of_append (h : startsNumber c (a ++ b) = true)
    (hn : numberLength (c :: a ++ b) ≤ a.length + 1) : startsNumber c a = true := by
  cases a with
  | nil =>
    by_contra hno
    have hdigit : c.isDigit = false := by simpa [startsNumber] using hno
    have := (numberLength_pos h).2 hdigit
    exact absurd hn (Nat.not_le.2 this)
  | cons d a => exact h

theorem number_of_append (hcut : lexeme.rest = a.length ∨ Parted (c :: a) b)
    (hstart : startsNumber c (a ++ b) = true) (h : number (c :: (a ++ b)) = .ok lexeme)
    (hn : lexeme.rest ≤ a.length) : startsNumber c a = true ∧ number (c :: a) = .ok lexeme := by
  have hpos := (numberLength_pos hstart).1
  rw [← List.cons_append] at h hpos
  unfold number at h ⊢
  dsimp only at h ⊢
  split at h
  · cases h
  · next hjunk =>
    cases h
    dsimp only at hcut hn
    have hle : numberLength (c :: a ++ b) ≤ (c :: a).length := by
      rw [List.length_cons]
      omega
    have hsame : numberLength (c :: a) = numberLength (c :: a ++ b) := by
      refine numberLength_of_append (hcut.imp (fun h => ?_) Parted.point) hle
      rw [List.length_cons]
      omega
    refine ⟨startsNumber_of_append hstart hle, ?_⟩
    rw [hsame, if_neg, List.take_append_of_le_length hle]
    rw [List.drop_append_of_le_length hle] at hjunk
    cases hrest : (c :: a).drop (numberLength (c :: a ++ b)) with
    | nil => simp
    | cons d rest => exact fun hword => hjunk (hrest ▸ hword)

theorem word_of_append (hn : (word c (a ++ b)).rest ≤ a.length) : word c a = word c (a ++ b) := by
  simp only [word] at hn ⊢
  rw [takeWhile_of_append hn]

theorem symbol_of_append (hcut : lexeme.rest = a.length ∨ Parted a b)
    (h : symbol c (a ++ b) = .ok lexeme) (hn : lexeme.rest ≤ a.length) :
    symbol c a = .ok lexeme := by
  unfold symbol at h ⊢
  split at h
  · exact h
  · split at h
    · next hoperator =>
      cases h
      obtain ⟨op, hop, -⟩ := operatorText_eq c (a ++ b)
      have hlength : (operatorText c (a ++ b)).length = (operator c (a ++ b)).rest + 1 := by
        simp [operator, hop]
      have htext : operatorText c a = operatorText c (a ++ b) := by
        refine operatorText_of_append (hcut.imp_left fun h => ?_) ?_ <;> omega
      rw [if_pos hoperator, operator, operator, htext]
    · cases h

/-- A lexeme is read the same without what stands behind a cut. -/
theorem scan_of_append {left : List Char} (hcut : left = [] ∨ Parted (c :: a) b)
    (h : scan c (a ++ b) = .ok lexeme) (hleft : (a ++ b).drop lexeme.rest = left ++ b) :
    scan c a = .ok lexeme := by
  by_cases hnil : b = []
  · rwa [hnil, List.append_nil] at h
  have hlength := congrArg List.length hleft
  have hpos := List.length_pos_iff.2 hnil
  simp only [List.length_drop, List.length_append] at hlength
  have hn : lexeme.rest ≤ a.length := by omega
  have hcut : lexeme.rest = a.length ∨ Parted (c :: a) b := by
    refine hcut.imp_left fun hleft => ?_
    rw [hleft, List.length_nil] at hlength
    omega
  unfold scan at h ⊢
  split_ifs at h with hstring hquoted hdollar hcolon hnumber hword hescaped
  · rw [if_pos hstring]
    exact string_of_append h hn
  · rw [if_neg hstring, if_pos hquoted]
    exact quotedIdentifier_of_append h hn
  · rw [if_neg hstring, if_neg hquoted, if_pos hdollar]
    exact dollar_of_append h hn
  · cases h
    rw [if_neg hstring, if_neg hquoted, if_neg hdollar, if_pos hcolon, colon_of_append hn]
  · obtain ⟨hstart, hnumber'⟩ :=
      number_of_append hcut hnumber h hn
    rw [if_neg hstring, if_neg hquoted, if_neg hdollar, if_neg hcolon, if_pos hstart]
    exact hnumber'
  all_goals
    have hstart : ¬startsNumber c a = true := fun h => hnumber (startsNumber_append h b)
    rw [if_neg hstring, if_neg hquoted, if_neg hdollar, if_neg hcolon, if_neg hstart]
  · have hne : a ≠ [] := by
      rintro rfl
      exact absurd hn (Nat.not_le.2 (escapedString_pos h))
    obtain ⟨d, a, rfl⟩ := List.exists_cons_of_ne_nil hne
    rw [if_pos hword, if_pos (by simpa using hescaped)]
    exact escapedString_of_append h hn
  · have hescaped' : ¬((c = 'e' || c = 'E') && a.head? = some '\'') = true := by
      cases a with
      | nil => simp
      | cons d a => exact hescaped
    cases h
    rw [if_pos hword, if_neg hescaped', word_of_append hn]
  · rw [if_neg hword]
    exact symbol_of_append (hcut.imp_right Parted.tail) h hn

theorem clear_of_scan {rest : List Char} (h : scan c rest = .ok lexeme)
    (hkind : lexeme.kind.startsClear = true) : Clear (c :: rest) := by
  constructor <;> rintro ⟨⟩
  · have hword : isWordStart '.' = false := by decide +kernel
    by_cases hnumber : startsNumber '.' rest = true
    · simp [scan, hnumber, number] at h
      split at h <;> cases h
      cases hkind
    · simp [scan, hnumber, hword, symbol, punctuation?] at h
      simp [← h, Kind.startsClear] at hkind
  · have hword : isWordStart '*' = false := by decide +kernel
    have hnumber : startsNumber '*' rest = false := rfl
    have hoperator : isOperatorChar '*' = true := by decide
    simp [scan, hnumber, hword, symbol, punctuation?, hoperator] at h
    simp [← h, operator, Kind.startsClear] at hkind

end Lexeme

end DdlCatalog.Token
