import DdlCatalog.Proofs.Grammar.TypeFollow
import DdlCatalog.Proofs.Token.Spelling

/-! # Types as they are shown
The text of a type is a phrase of the same type. -/

namespace DdlCatalog

namespace Grammar

open Token (Kind IsLowerWord Spells Breaks EndsNumber breaks_mark)

variable {rest left : List Char} {us : List Kind}

def sizeKind (n : UInt32) : Kind := .number (toString n.toNat)

theorem toList_size (n : UInt32) : (toString n.toNat).toList = Nat.toDigits 10 n.toNat := by
  rw [Nat.toString_eq_ofList_toDigits, String.toList_ofList]

theorem isDigit_of_mem_size {n : UInt32} {c : Char} (h : c ∈ (toString n.toNat).toList) :
    c.isDigit = true := by
  rw [toList_size] at h
  exact Nat.isDigit_of_mem_toDigits (by decide) (by decide) h

theorem isSize_sizeKind (n : UInt32) : IsSize (sizeKind n) n := by
  refine ⟨_, rfl, ?_, fun c => isDigit_of_mem_size, ?_⟩
  · rw [toList_size]
    exact Nat.toDigits_ne_nil
  · have hvalue := Nat.ofDigitChars_ten_toDigits (n := n.toNat)
    rwa [Nat.ofDigitChars_eq_foldl, ← toList_size] at hvalue

theorem spells_size (n : UInt32) (hrest : EndsNumber rest) (more : Spells rest us left) :
    Spells ((toString n.toNat).toList ++ rest) (sizeKind n :: us) left := by
  have hne : (toString n.toNat).toList ≠ [] := by
    rw [toList_size]
    exact Nat.toDigits_ne_nil
  have hspells := Spells.digits hne (fun c => isDigit_of_mem_size) hrest more
  rwa [String.ofList_toList] at hspells

def modifierKinds : Option UInt32 → Option UInt32 → List Kind
  | some p, some s => [.leftParen, sizeKind p, .comma, sizeKind s, .rightParen]
  | some p, none => [.leftParen, sizeKind p, .rightParen]
  | none, _ => []

theorem spells_modifiers (p s : Option UInt32) (more : Spells rest us left) :
    Spells ((TypeRef.showModifiers p s).toList ++ rest) (modifierKinds p s ++ us) left := by
  match p, s with
  | some p, some s =>
    have hspells := Spells.mark (c := '(') rfl (by decide) <| spells_size p (.comma _) <|
      Spells.mark (c := ',') rfl (by decide) <| spells_size s (.rightParen _) <|
      Spells.mark (c := ')') rfl (by decide) more
    simpa [TypeRef.showModifiers, modifierKinds] using hspells
  | some p, none =>
    have hspells := Spells.mark (c := '(') rfl (by decide) <| spells_size p (.rightParen _) <|
      Spells.mark (c := ')') rfl (by decide) more
    simpa [TypeRef.showModifiers, modifierKinds] using hspells
  | none, _ => simpa [TypeRef.showModifiers, modifierKinds] using more

def dimensionKinds : List (Option UInt32) → List Kind
  | [] => []
  | some n :: dims => .leftBracket :: sizeKind n :: .rightBracket :: dimensionKinds dims
  | none :: dims => .leftBracket :: .rightBracket :: dimensionKinds dims

theorem dimensions_dimensionKinds (dims : List (Option UInt32)) :
    Dimensions (dimensionKinds dims) dims := by
  induction dims with
  | nil => exact .nil
  | cons dim dims ih =>
    cases dim with
    | none => exact .cons .unsized ih
    | some n => exact .cons (.sized (isSize_sizeKind n)) ih

theorem spells_dimensions (dims : List (Option UInt32)) (more : Spells rest us left) :
    Spells ((String.join (dims.map TypeRef.showDimension)).toList ++ rest)
      (dimensionKinds dims ++ us) left := by
  induction dims with
  | nil => simpa [dimensionKinds, String.join] using more
  | cons dim dims ih =>
    cases dim with
    | none =>
      have hspells := Spells.mark (c := '[') rfl (by decide) <|
        Spells.mark (c := ']') rfl (by decide) ih
      simpa [TypeRef.showDimension, dimensionKinds] using hspells
    | some n =>
      have hspells := Spells.mark (c := '[') rfl (by decide) <| spells_size n (.rightBracket _) <|
        Spells.mark (c := ']') rfl (by decide) ih
      simpa [TypeRef.showDimension, dimensionKinds] using hspells

/-- How a type without quotes is named: by a word, by two with a point between them, by two that make
one name, or by a time with its zone. -/
inductive PlainName : Option String → String → Prop where
  | word {name : String} (word : IsLowerWord name) : PlainName none name
  | qualified {schema name : String} (word : IsLowerWord schema) (word' : IsLowerWord name) :
    PlainName (some schema) name
  | folded {first name : String} {second : Token.Keyword} (pair : (first, second, name) ∈ foldedNames) :
    PlainName none name
  | zoned {first zone name : String} {k : Kind} (time : first = "time" ∨ first = "timestamp")
    (word : ZoneWord k zone) (said : name = first ++ " " ++ zone) : PlainName none name

theorem showName_word {name : String} (h : IsLowerWord name) (modifiers : String) :
    TypeRef.showName name modifiers = name ++ modifiers := by
  have hblank : name.toList.dropWhile (· ≠ ' ') = [] := by
    rw [List.dropWhile_eq_nil_iff]
    intro c hc
    simpa using h.word.ne_blank hc
  unfold TypeRef.showName
  simp only [hblank]

theorem showName_folded {first name : String} {second : Token.Keyword}
    (h : (first, second, name) ∈ foldedNames) (modifiers : String) :
    TypeRef.showName name modifiers = name ++ modifiers := by
  simp only [foldedNames, List.mem_cons, Prod.mk.injEq, List.not_mem_nil, or_false] at h
  rcases h with ⟨-, -, rfl⟩ | ⟨-, -, rfl⟩ | ⟨-, -, rfl⟩ | ⟨-, -, rfl⟩ <;> rfl

theorem showName_zoned {first zone : String} {k : Kind} (h : first = "time" ∨ first = "timestamp")
    (hzone : ZoneWord k zone) (modifiers : String) :
    TypeRef.showName (first ++ " " ++ zone) modifiers = first ++ modifiers ++ " " ++ zone := by
  rcases h with rfl | rfl <;> cases hzone <;> rfl

theorem exists_shown_of_folded {first name : String} {second : Token.Keyword}
    (h : (first, second, name) ∈ foldedNames) :
    ∃ shown, (shown, second, name) ∈ foldedNames ∧ name = shown ++ " " ++ second.spelling ∧
      IsLowerWord shown ∧ IsLowerWord second.spelling ∧
      Kind.ofWord second.spelling = .keyword second ∧ Kind.ofWord shown = .identifier shown := by
  simp only [foldedNames, List.mem_cons, Prod.mk.injEq, List.not_mem_nil, or_false] at h
  rcases h with ⟨-, rfl, rfl⟩ | ⟨-, rfl, rfl⟩ | ⟨-, rfl, rfl⟩ | ⟨-, rfl, rfl⟩
  · exact ⟨"double", by decide, rfl, by decide +kernel, by decide +kernel, rfl, rfl⟩
  · exact ⟨"character", by decide, rfl, by decide +kernel, by decide +kernel, rfl, rfl⟩
  · exact ⟨"character", by decide, rfl, by decide +kernel, by decide +kernel, rfl, rfl⟩
  · exact ⟨"bit", by decide, rfl, by decide +kernel, by decide +kernel, rfl, rfl⟩

theorem breaks_modifiers (p s : Option UInt32) (h : Breaks rest) :
    Breaks ((TypeRef.showModifiers p s).toList ++ rest) := by
  match p, s with
  | some p, some s | some p, none =>
    simpa [TypeRef.showModifiers] using breaks_mark (c := '(') (by decide) _
  | none, _ => simpa [TypeRef.showModifiers] using h

theorem breaks_dimensions (dims : List (Option UInt32)) (h : Breaks rest) :
    Breaks ((String.join (dims.map TypeRef.showDimension)).toList ++ rest) := by
  match dims with
  | [] => simpa [String.join] using h
  | none :: dims | some n :: dims =>
    simpa [TypeRef.showDimension] using breaks_mark (c := '[') (by decide) _

theorem spells_zone {k : Kind} {zone : String} (h : ZoneWord k zone) (hrest : Breaks rest)
    (more : Spells rest us left) :
    Spells (' ' :: (zone.toList ++ rest)) (k :: .keyword .TIME :: .keyword .ZONE :: us) left := by
  have hwords : IsLowerWord "with" ∧ IsLowerWord "without" ∧ IsLowerWord "time" ∧
      IsLowerWord "zone" := by decide +kernel
  obtain ⟨hwith, hwithout, htime, hzone⟩ := hwords
  have hbreaks (cs : List Char) : Breaks (' ' :: cs) := breaks_mark (by decide) cs
  have hmore := Spells.blank (c := ' ') (by decide) <| .lowerWord htime (hbreaks _) <|
    .blank (c := ' ') (by decide) <| .lowerWord hzone hrest more
  cases h with
  | «with» => exact .blank (by decide) (.lowerWord hwith (hbreaks _) hmore)
  | without => exact .blank (by decide) (.lowerWord hwithout (hbreaks _) hmore)

/-- The modifiers and dimensions of a type, and its name. -/
structure PlainType (t : TypeRef) : Prop where
  name : PlainName t.schema t.name
  scale : t.precision = none → t.scale = none

/-- The first word of a type as it is shown. -/
def firstWord (t : TypeRef) : String :=
  t.schema.getD (String.ofList (t.name.toList.takeWhile (· ≠ ' ')))

theorem modifierPhrase_kinds {t u : TypeRef} {p s : Option UInt32} {ks : List Kind}
    (hp : t.precision = none) (hs : t.scale = none) (hscale : p = none → s = none)
    (h : ZonePhrase { t with precision := p, scale := s } ks u) :
    ModifierPhrase t (modifierKinds p s ++ ks) u := by
  match p, s with
  | some p, some s => exact .modified (.scale (isSize_sizeKind p) (isSize_sizeKind s)) h
  | some p, none => exact .modified (.precision (isSize_sizeKind p)) h
  | none, s =>
    obtain rfl := hscale rfl
    obtain ⟨schema, name, _, _, dims⟩ := t
    subst hp hs
    exact .plain h

theorem toList_toString_bare (name : String) (p s : Option UInt32) (dims : List (Option UInt32)) :
    (toString (⟨none, name, p, s, dims⟩ : TypeRef)).toList =
      (TypeRef.showName name (TypeRef.showModifiers p s)).toList ++
        (String.join (dims.map TypeRef.showDimension)).toList := by
  simp [toString]

theorem toList_toString_qualified (schema name : String) (p s : Option UInt32)
    (dims : List (Option UInt32)) :
    (toString (⟨some schema, name, p, s, dims⟩ : TypeRef)).toList =
      schema.toList ++ '.' :: ((TypeRef.showName name (TypeRef.showModifiers p s)).toList ++
        (String.join (dims.map TypeRef.showDimension)).toList) := by
  simp [toString]

theorem firstWord_word {name : String} (h : IsLowerWord name) (p s : Option UInt32)
    (dims : List (Option UInt32)) : firstWord ⟨none, name, p, s, dims⟩ = name := by
  have hall : ∀ c ∈ name.toList, decide (c ≠ ' ') = true := fun c hc =>
    decide_eq_true (h.word.ne_blank hc)
  rw [firstWord, Option.getD_none, List.takeWhile_eq_self_iff.2 hall, String.ofList_toList]

theorem firstWord_words {first : String} (h : IsLowerWord first) (more : String)
    (p s : Option UInt32) (dims : List (Option UInt32)) :
    firstWord ⟨none, first ++ " " ++ more, p, s, dims⟩ = first := by
  have hall : ∀ c ∈ first.toList, decide (c ≠ ' ') = true := fun c hc =>
    decide_eq_true (h.word.ne_blank hc)
  rw [firstWord, Option.getD_none, String.toList_append, String.toList_append, List.append_assoc,
    List.takeWhile_append_of_pos hall]
  simp

/-- The text of a type is spelled by a phrase of it, in front of any text that ends a word. -/
theorem PlainType.exists_phrase {t : TypeRef} (h : PlainType t) :
    ∃ ks, TypePhrase (Kind.ofWord (firstWord t) :: ks) t ∧
      ∀ {rest left : List Char} {us : List Kind}, Breaks rest → Spells rest us left →
        Spells ((toString t).toList ++ rest) (Kind.ofWord (firstWord t) :: (ks ++ us)) left := by
  obtain ⟨schema, name, p, s, dims⟩ := t
  obtain ⟨hname, hscale⟩ := h
  have hphrase (t : TypeRef) (hp : t.precision = none) (hs : t.scale = none) :
      ModifierPhrase t (modifierKinds p s ++ dimensionKinds dims)
        { t with precision := p, scale := s, arrayDims := dims } :=
    modifierPhrase_kinds hp hs hscale (.plain (.brackets (dimensions_dimensionKinds dims)))
  have hsuffix {rest left : List Char} {us : List Kind} (hrest : Breaks rest)
      (more : Spells rest us left) :
      Breaks ((TypeRef.showModifiers p s).toList ++
          ((String.join (dims.map TypeRef.showDimension)).toList ++ rest)) ∧
        Spells ((TypeRef.showModifiers p s).toList ++
            ((String.join (dims.map TypeRef.showDimension)).toList ++ rest))
          (modifierKinds p s ++ (dimensionKinds dims ++ us)) left :=
    ⟨breaks_modifiers p s (breaks_dimensions dims hrest),
      spells_modifiers p s (spells_dimensions dims more)⟩
  cases hname with
  | word word =>
    rw [firstWord_word word]
    refine ⟨modifierKinds p s ++ dimensionKinds dims,
      .name (name?_of_word? (Kind.word?_ofWord name)) (hphrase _ rfl rfl), ?_⟩
    intro rest left us hrest more
    obtain ⟨hbreaks, hspells⟩ := hsuffix hrest more
    rw [toList_toString_bare, showName_word word, String.toList_append, List.append_assoc,
      List.append_assoc, List.append_assoc]
    exact .lowerWord word hbreaks hspells
  | @qualified schema _ word word' =>
    refine ⟨.dot :: Kind.ofWord name :: (modifierKinds p s ++ dimensionKinds dims),
      .qualified (name?_of_word? (Kind.word?_ofWord schema)) (name?_of_word? (Kind.word?_ofWord name))
        (hphrase _ rfl rfl), ?_⟩
    intro rest left us hrest more
    obtain ⟨hbreaks, hspells⟩ := hsuffix hrest more
    have hpoint := Spells.point word'.word.head_not_isDigit (.lowerWord word' hbreaks hspells)
    rw [toList_toString_qualified, showName_word word', String.toList_append]
    simp only [List.append_assoc, List.cons_append]
    exact .lowerWord word (breaks_mark (by decide) _) hpoint
  | folded pair =>
    obtain ⟨shown, hshown, rfl, hword, hword', hkind, -⟩ := exists_shown_of_folded pair
    rw [firstWord_words hword]
    refine ⟨.keyword _ :: (modifierKinds p s ++ dimensionKinds dims),
      .folded (Kind.word?_ofWord shown) hshown (hphrase _ rfl rfl), ?_⟩
    intro rest left us hrest more
    obtain ⟨hbreaks, hspells⟩ := hsuffix hrest more
    have hsecond := Spells.lowerWord hword' hbreaks hspells
    rw [hkind] at hsecond
    rw [toList_toString_bare, showName_folded pair]
    simp only [String.toList_append, List.append_assoc, List.cons_append]
    exact .lowerWord hword (breaks_mark (by decide) _) (.blank (by decide) hsecond)
  | @zoned first zone _ k time word said =>
    subst said
    have hfirst : IsLowerWord first := by rcases time with rfl | rfl <;> decide +kernel
    rw [firstWord_words hfirst]
    refine ⟨modifierKinds p s ++ (k :: .keyword .TIME :: .keyword .ZONE :: dimensionKinds dims),
      .name (name?_of_word? (Kind.word?_ofWord first)) (modifierPhrase_kinds rfl rfl hscale
        (.zone ⟨rfl, time⟩ word (.brackets (dimensions_dimensionKinds dims)))), ?_⟩
    intro rest left us hrest more
    have hzone := spells_zone word (breaks_dimensions dims hrest) (spells_dimensions dims more)
    rw [toList_toString_bare, showName_zoned time word]
    simp only [String.toList_append, List.append_assoc, List.cons_append]
    exact .lowerWord hfirst (breaks_modifiers p s (breaks_mark (by decide) _))
      (spells_modifiers p s hzone)

/-- What a phrase adds to the name and the modifiers it starts from. -/
theorem ModifierPhrase.named {t u : TypeRef} {ks : List Kind} (h : ModifierPhrase t ks u)
    (hs : t.scale = none) : u.schema = t.schema ∧ (u.precision = none → u.scale = none) ∧
      (u.name = t.name ∨
        t.IsTime ∧ ∃ k zone, ZoneWord k zone ∧ u.name = t.name ++ " " ++ zone) := by
  cases h with
  | plain rest =>
    cases rest with
    | plain => exact ⟨rfl, fun _ => hs, .inl rfl⟩
    | zone time word => exact ⟨rfl, fun _ => hs, .inr ⟨time, _, _, word, rfl⟩⟩
  | modified _ rest =>
    cases rest with
    | plain => exact ⟨rfl, nofun, .inl rfl⟩
    | zone time word => exact ⟨rfl, nofun, .inr ⟨time, _, _, word, rfl⟩⟩

/-- Nothing is added to two words that make one name. -/
theorem ModifierPhrase.named_of_folded {first name : String} {second : Token.Keyword} {u : TypeRef}
    {ks : List Kind} (h : ModifierPhrase (TypeRef.ofName name) ks u)
    (pair : (first, second, name) ∈ foldedNames) :
    u.schema = none ∧ (u.precision = none → u.scale = none) ∧ u.name = name := by
  obtain ⟨hschema, hscale, hsame | ⟨htime, -⟩⟩ := h.named rfl
  · exact ⟨hschema, hscale, hsame⟩
  · have hall : ∀ a ∈ foldedNames, ¬ (a.2.2 = "time" ∨ a.2.2 = "timestamp") := by decide
    exact absurd htime.2 (hall _ pair)

/-- A type that is read from names without quotes, in ASCII, is named in such a way. -/
theorem TypePhrase.plainType {ks : List Kind} {t : TypeRef} (h : TypePhrase ks t)
    (hks : ∀ k ∈ ks, ∀ name, k.name? = some name → IsLowerWord name) : PlainType t := by
  cases h with
  | @name k name _ _ hname rest =>
    obtain ⟨hschema, hscale, hnamed⟩ := rest.named rfl
    have hword := hks k (List.mem_cons_self ..) name hname
    refine ⟨?_, hscale⟩
    rw [hschema]
    rcases hnamed with hsame | ⟨htime, _, zone, hzone, hsaid⟩
    · rw [hsame]
      exact .word hword
    · exact .zoned htime.2 hzone hsaid
  | @qualified k k' schema name _ _ hword hword' rest =>
    obtain ⟨hschema, hscale, hnamed⟩ := rest.named rfl
    refine ⟨?_, hscale⟩
    rw [hschema]
    rcases hnamed with hsame | ⟨htime, -⟩
    · rw [hsame]
      exact .qualified (hks k (by simp) schema hword) (hks k' (by simp) name hword')
    · cases htime.1
  | folded _ pair rest =>
    obtain ⟨hschema, hscale, hname⟩ := rest.named_of_folded pair
    refine ⟨?_, hscale⟩
    rw [hschema, hname]
    exact .folded pair

section Reading

variable {text : String} {ts : List Token} {stop : Token} {t : TypeRef} {n : Nat}

theorem parseType_eq_ok_iff
    (htokens : Token.tokenize anonymousSource text.toList = .ok (ts ++ [stop]))
    (hstop : stop.kind = .eof) : parseType text = .ok (t, n) ↔
      ∃ rest, Parser.typeRef.run ⟨anonymousSource, text.toList, ts, stop⟩ ts = .ok (t, rest) ∧
        n = ts.length - rest.length := by
  unfold parseType
  rw [htokens]
  show Except.bind (Parser.run _ (.ofTokens ..) _) _ = _ ↔ _
  rw [Context.ofTokens_of_eof hstop]
  dsimp only
  cases Parser.typeRef.run _ ts with
  | error e => simp [Except.bind]
  | ok o =>
    obtain ⟨u, rest⟩ := o
    constructor
    · rintro ⟨⟩
      exact ⟨rest, rfl, rfl⟩
    · rintro ⟨_, ⟨⟩, rfl⟩
      rfl

/-- The tokens that `parseType` reads are a phrase of the type. -/
theorem exists_phrase_of_parseType
    (htokens : Token.tokenize anonymousSource text.toList = .ok (ts ++ [stop]))
    (hstop : stop.kind = .eof) (hparsed : parseType text = .ok (t, n)) :
    TypePhrase ((ts.take n).map (·.kind)) t := by
  obtain ⟨rest, hrun, rfl⟩ := (parseType_eq_ok_iff htokens hstop).1 hparsed
  let ctx : Context := ⟨anonymousSource, text.toList, ts, stop⟩
  have hstop' : ctx.stop.kind = .eof := hstop
  rcases Parser.reading_typeRef hstop' ts with hreading | ⟨⟨_, _, herror⟩, -⟩
  · rw [hrun] at hreading
    cases hreading with
    | @complete front _ _ split phrase =>
      have htake : ts.take (ts.length - rest.length) = front := by
        rw [split, List.length_append, Nat.add_sub_cancel, List.take_left]
      rw [htake]
      exact (phrase t).2 rfl
  · rw [hrun] at herror
    cases herror

/-- Names without quotes, in ASCII, are words in lower case once they are read. -/
theorem plainType_of_parseType
    (htokens : Token.tokenize anonymousSource text.toList = .ok (ts ++ [stop]))
    (hstop : stop.kind = .eof) (hparsed : parseType text = .ok (t, n))
    (hplain : ∀ u ∈ ts.take n, u.kind.IsPlainName) : PlainType t := by
  obtain ⟨_, hreads, -⟩ := Token.Reads.of_tokens (Token.tokens_of_tokenize htokens)
  refine (exists_phrase_of_parseType htokens hstop hparsed).plainType fun k hk name hname => ?_
  obtain ⟨u, hu, rfl⟩ := List.mem_map.1 hk
  exact (hreads.isLowerWord u (List.mem_of_mem_take hu) (hplain u hu) hname).1

/-- A type whose names are words in lower case is read from its text, to the end of it. -/
theorem PlainType.parseType_toString (h : PlainType t) :
    ∃ shown stop, Token.tokenize anonymousSource (toString t).toList = .ok (shown ++ [stop]) ∧
      stop.kind = .eof ∧ (∀ u ∈ shown, u.kind ≠ .eof) ∧
      parseType (toString t) = .ok (t, shown.length) := by
  obtain ⟨ks, hphrase, hspells⟩ := h.exists_phrase
  have hwhole := hspells .nil (.done [])
  simp only [List.append_nil] at hwhole
  obtain ⟨shown, stop, htokens, hkinds, hstop, hshown⟩ := hwhole.exists_tokenize anonymousSource
  refine ⟨shown, stop, htokens, hstop, hshown, (parseType_eq_ok_iff htokens hstop).2 ⟨[], ?_, rfl⟩⟩
  have hrun : Parser.typeRef.run ⟨anonymousSource, (toString t).toList, shown, stop⟩ (shown ++ []) =
      .ok (t, []) := Parser.run_typeRef_of_phrase hstop (hkinds ▸ hphrase)
    (by rw [show Context.current _ [] = stop from rfl, hstop]; rfl)
  rwa [List.append_nil] at hrun

end Reading

/-- The text of a type is a normal form: what is read from names without quotes, in ASCII, is read
again from its text, all of which is taken. -/
theorem parseType_shown {text : String} {tokens : List Token} {t : TypeRef} {n : Nat}
    (htokens : Token.tokenize anonymousSource text.toList = .ok tokens)
    (hparsed : parseType text = .ok (t, n))
    (hplain : ∀ u ∈ tokens.take n, u.kind.IsPlainName) :
    ∃ shown stop, Token.tokenize anonymousSource (toString t).toList = .ok (shown ++ [stop]) ∧
      stop.kind = .eof ∧ (∀ u ∈ shown, u.kind ≠ .eof) ∧
      parseType (toString t) = .ok (t, shown.length) := by
  obtain ⟨ts, stop, rfl, hstop⟩ := Token.exists_stop_of_tokenize htokens
  refine (plainType_of_parseType htokens hstop hparsed fun u hu => ?_).parseType_toString
  exact hplain u (List.take_append ▸ List.mem_append_left _ hu)

theorem parseType_shown_timestamp :
    let text := "Timestamp (03) WITHOUT time zone ARRAY[007]"
    let t : TypeRef := ⟨none, "timestamp without time zone", some 3, none, [some 7]⟩
    ∃ tokens, Token.tokenize anonymousSource text.toList = .ok tokens ∧
      parseType text = .ok (t, 11) ∧ (∀ u ∈ tokens.take 11, u.kind.IsPlainName) ∧
      toString t = "timestamp(3) without time zone[7]" ∧
      ∃ shown stop, Token.tokenize anonymousSource (toString t).toList = .ok (shown ++ [stop]) ∧
        stop.kind = .eof ∧ (∀ u ∈ shown, u.kind ≠ .eof) ∧
        parseType (toString t) = .ok (t, shown.length) := by
  intro text t
  have hoption : (parseType text).toOption.map id = some (t, 11) := by decide +kernel
  have hkinds : (Token.tokenize anonymousSource text.toList).toOption.map (fun tokens =>
      decide (∀ u ∈ tokens.take 11, u.kind.IsPlainName)) = some true := by decide +kernel
  obtain ⟨_, hparsed, rfl⟩ := exists_ok_of_map_toOption hoption
  obtain ⟨tokens, htokens, hdecided⟩ := exists_ok_of_map_toOption hkinds
  have hplain := of_decide_eq_true hdecided
  exact ⟨tokens, htokens, hparsed, hplain, by decide +kernel, parseType_shown htokens hparsed hplain⟩

end Grammar

end DdlCatalog
