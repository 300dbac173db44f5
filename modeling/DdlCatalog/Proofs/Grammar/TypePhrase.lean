import DdlCatalog.Proofs.Grammar.Forward

/-! # Phrases that are types
A type is written as a phrase of words, numbers and marks. The phrase is read as far as it goes, and a
mark that begins a part of it has to be followed by the rest of that part. -/

namespace DdlCatalog

/-- Whether the zone of a time may be said. -/
def TypeRef.IsTime (t : TypeRef) : Prop := t.schema = none ∧ (t.name = "time" ∨ t.name = "timestamp")

namespace Grammar

open Token (Kind)

/-- A number in plain decimal digits, of 32 bits. -/
def IsSize (k : Kind) (n : UInt32) : Prop :=
  ∃ digits, k = .number digits ∧ digits.toList ≠ [] ∧ (∀ c ∈ digits.toList, c.isDigit = true) ∧
    Decimal.digitsValue digits.toList = n.toNat

/-- Two words that are one built-in name. -/
def foldedNames : List (String × Token.Keyword × String) :=
  [("double", .PRECISION, "double precision"), ("char", .VARYING, "character varying"),
   ("character", .VARYING, "character varying"), ("bit", .VARYING, "bit varying")]

/-- The word that begins the zone of a time, and what it adds to the name. -/
inductive ZoneWord : Kind → String → Prop where
  | with : ZoneWord (.keyword .WITH) "with time zone"
  | without : ZoneWord (.keyword .WITHOUT) "without time zone"

/-- What stands behind the opening bracket of a dimension. -/
inductive DimensionEnd : List Kind → Option UInt32 → Prop where
  | unsized : DimensionEnd [.rightBracket] none
  | sized {k : Kind} {n : UInt32} (size : IsSize k n) : DimensionEnd [k, .rightBracket] (some n)

/-- Any number of dimensions in brackets. -/
inductive Dimensions : List Kind → List (Option UInt32) → Prop where
  | nil : Dimensions [] []
  | cons {dim : Option UInt32} {ks us : List Kind} {dims : List (Option UInt32)}
    (first : DimensionEnd ks dim) (rest : Dimensions us dims) :
    Dimensions (.leftBracket :: (ks ++ us)) (dim :: dims)

/-- Dimensions in brackets, or `ARRAY` with at most one. -/
inductive ArrayPhrase : List Kind → List (Option UInt32) → Prop where
  | brackets {ks : List Kind} {dims : List (Option UInt32)} (dimensions : Dimensions ks dims) :
    ArrayPhrase ks dims
  | array : ArrayPhrase [.keyword .ARRAY] [none]
  | bounded {dim : Option UInt32} {ks : List Kind} (dimension : DimensionEnd ks dim) :
    ArrayPhrase (.keyword .ARRAY :: .leftBracket :: ks) [dim]

/-- A type of the given name and modifiers, from its zone on. -/
inductive ZonePhrase (t : TypeRef) : List Kind → TypeRef → Prop where
  | plain {ks : List Kind} {dims : List (Option UInt32)} (rest : ArrayPhrase ks dims) :
    ZonePhrase t ks { t with arrayDims := dims }
  | zone {k : Kind} {zone : String} {ks : List Kind} {dims : List (Option UInt32)} (time : t.IsTime)
    (word : ZoneWord k zone) (rest : ArrayPhrase ks dims) :
    ZonePhrase t (k :: .keyword .TIME :: .keyword .ZONE :: ks)
      { t with name := t.name ++ " " ++ zone, arrayDims := dims }

/-- What stands behind the opening parenthesis of the modifiers. -/
inductive ModifierEnd : List Kind → UInt32 → Option UInt32 → Prop where
  | precision {k : Kind} {p : UInt32} (size : IsSize k p) : ModifierEnd [k, .rightParen] p none
  | scale {k k' : Kind} {p s : UInt32} (size : IsSize k p) (size' : IsSize k' s) :
    ModifierEnd [k, .comma, k', .rightParen] p (some s)

/-- A type of the given name, from its modifiers on. -/
inductive ModifierPhrase (t : TypeRef) : List Kind → TypeRef → Prop where
  | plain {ks : List Kind} {u : TypeRef} (rest : ZonePhrase t ks u) : ModifierPhrase t ks u
  | modified {p : UInt32} {s : Option UInt32} {ks us : List Kind} {u : TypeRef}
    (modifiers : ModifierEnd ks p s)
    (rest : ZonePhrase { t with precision := some p, scale := s } us u) :
    ModifierPhrase t (.leftParen :: (ks ++ us)) u

/-- The tokens of a type, by their kinds, and the type. -/
inductive TypePhrase : List Kind → TypeRef → Prop where
  | name {k : Kind} {name : String} {ks : List Kind} {u : TypeRef} (word : k.name? = some name)
    (rest : ModifierPhrase (TypeRef.ofName name) ks u) : TypePhrase (k :: ks) u
  | qualified {k k' : Kind} {schema name : String} {ks : List Kind} {u : TypeRef}
    (word : k.name? = some schema) (word' : k'.name? = some name)
    (rest : ModifierPhrase { TypeRef.ofName name with schema := some schema } ks u) :
    TypePhrase (k :: .dot :: k' :: ks) u
  | folded {k : Kind} {first : String} {second : Token.Keyword} {name : String} {ks : List Kind}
    {u : TypeRef} (word : k.word? = some first) (pair : (first, second, name) ∈ foldedNames)
    (rest : ModifierPhrase (TypeRef.ofName name) ks u) : TypePhrase (k :: .keyword second :: ks) u

/-- Marks that begin a part of a type. -/
def opensPart (k : Kind) : Bool := k = .dot || k = .leftParen || k = .leftBracket

variable {α β : Type} {S S' : List Kind → α → Prop} {ts : List Token}

/-- A part of a phrase may begin with the next token, which is a mark. -/
def GoesOn (S : List Kind → α → Prop) (front : List Kind) (rest : List Token) : Prop :=
  ∃ t ∈ rest.head?, opensPart t.kind = true ∧ ∃ more a, S (front ++ t.kind :: more) a

/-- No phrase at the start of some tokens is longer. -/
def Longest (S : List Kind → α → Prop) (ts front : List Token) : Prop :=
  ∀ ks a, ks <+: ts.map (·.kind) → S ks a → ks.length ≤ front.length

/-- A mark behind a phrase that may begin a part of it is followed by the rest of such a part. -/
def Finished (S : List Kind → α → Prop) (ks : List Kind) : Prop :=
  ∀ front k rest, ks = front ++ k :: rest → (∃ a, S front a) → opensPart k = true →
    (∃ more a, S (front ++ k :: more) a) → ∃ more a, more <+: rest ∧ S (front ++ k :: more) a

/-- A phrase stands in front, and no part of one is left unfinished. -/
def Acceptable (S : List Kind → α → Prop) (ks : List Kind) : Prop :=
  (∃ front a, front <+: ks ∧ S front a) ∧ Finished S ks

/-- The longest phrase at the start of some tokens is read. It fails exactly if a further part begins
behind it. -/
inductive Reading (S : List Kind → α → Prop) (ts : List Token) :
    Except Error (α × List Token) → Prop where
  | complete {front rest : List Token} {a : α} (split : ts = front ++ rest)
    (phrase : ∀ b, S (front.map (·.kind)) b ↔ b = a) (longest : Longest S ts front)
    (closed : ¬ GoesOn S (front.map (·.kind)) rest) : Reading S ts (.ok (a, rest))
  | broken {front rest : List Token} {a : α} {l : Text.Location} {message : String}
    (split : ts = front ++ rest) (phrase : S (front.map (·.kind)) a) (longest : Longest S ts front)
    (begun : GoesOn S (front.map (·.kind)) rest) : Reading S ts (.error (.typeSyntax l message))

/-- Kinds that agree with those of a row, up to their end or to a mark that begins a part. -/
inductive Meets : List Kind → List Kind → Prop where
  | nil {ks : List Kind} : Meets [] ks
  | opens {k : Kind} {ks us : List Kind} (mark : opensPart k = true) : Meets (k :: us) (k :: ks)
  | cons {k : Kind} {ks us : List Kind} (rest : Meets us ks) : Meets (k :: us) (k :: ks)

namespace Meets

variable {k : Kind} {us ks : List Kind}

theorem of_isPrefix (h : us <+: ks) : Meets us ks := by
  induction us generalizing ks with
  | nil => exact .nil
  | cons k us ih =>
    obtain ⟨more, rfl⟩ := h
    exact .cons (ih (List.prefix_append us more))

theorem of_append {front rest : List Kind} (hk : opensPart k = true) (more : List Kind) :
    Meets (front ++ k :: more) (front ++ k :: rest) := by
  induction front with
  | nil => exact .opens hk
  | cons _ _ ih => exact .cons ih

theorem head? (h : Meets (k :: us) ks) : ks.head? = some k := by cases h <;> rfl

theorem current_eq {ctx : Context} {ts : List Token} (h : Meets (k :: us) (ts.map (·.kind))) :
    (ctx.current ts).kind = k := by
  cases ts with
  | nil => cases h.head?
  | cons t ts => exact Option.some.inj h.head?

/-- Behind what is no such mark the next kinds agree as well. -/
theorem tail (h : Meets (k :: us) ks) (hk : opensPart k = false) :
    ∃ ks', ks = k :: ks' ∧ Meets us ks' := by
  cases h with
  | opens mark => rw [hk] at mark; cases mark
  | cons rest => exact ⟨_, rfl, rest⟩

end Meets

section Beginnings

variable {k : Kind} {zone zone' : String} {ks us : List Kind} {dims : List (Option UInt32)}

theorem ZoneWord.unique (h : ZoneWord k zone) (h' : ZoneWord k zone') : zone = zone' := by
  cases h <;> cases h' <;> rfl

theorem ArrayPhrase.head_eq (h : ArrayPhrase (k :: ks) dims) :
    k = .leftBracket ∨ k = .keyword .ARRAY := by
  cases h with
  | brackets dimensions => cases dimensions; exact .inl rfl
  | array | bounded => exact .inr rfl

theorem ZoneWord.not_arrayPhrase (h : ZoneWord k zone) : ¬ ArrayPhrase (k :: ks) dims := by
  intro hdims
  cases h <;> simpa using hdims.head_eq

/-- None of the words of a zone may be cut off. -/
theorem ZoneWord.prefix_of_meets (h : ZoneWord k zone)
    (hmeets : Meets (k :: .keyword .TIME :: .keyword .ZONE :: us) ks) :
    [k, .keyword .TIME, .keyword .ZONE] <+: ks := by
  have hk : opensPart k = false := by cases h <;> rfl
  obtain ⟨_, rfl, htime⟩ := hmeets.tail hk
  obtain ⟨_, rfl, hzone⟩ := htime.tail rfl
  obtain ⟨rest, rfl, -⟩ := hzone.tail rfl
  exact ⟨rest, rfl⟩

theorem ZonePhrase.head_eq {t u : TypeRef} (h : ZonePhrase t (k :: ks) u) :
    (∃ zone, ZoneWord k zone) ∨ k = .leftBracket ∨ k = .keyword .ARRAY := by
  cases h with
  | plain rest => exact .inr rest.head_eq
  | zone _ word => exact .inl ⟨_, word⟩

theorem ZonePhrase.not_leftParen {t u : TypeRef} : ¬ ZonePhrase t (.leftParen :: ks) u := by
  intro h
  rcases h.head_eq with ⟨_, ⟨⟩⟩ | h | h <;> cases h

theorem ModifierPhrase.head_eq {t u : TypeRef} (h : ModifierPhrase t (k :: ks) u) :
    k = .leftParen ∨ (∃ zone, ZoneWord k zone) ∨ k = .leftBracket ∨ k = .keyword .ARRAY := by
  cases h with
  | plain rest => exact .inr rest.head_eq
  | modified => exact .inl rfl

theorem not_modifierPhrase_dot {t u : TypeRef} : ¬ ModifierPhrase t (.dot :: ks) u := by
  intro h
  rcases h.head_eq with h | ⟨_, ⟨⟩⟩ | h | h <;> cases h

section Folded

variable {first name name' : String} {second : Token.Keyword}

theorem foldedNames_unique (h : (first, second, name) ∈ foldedNames)
    (h' : (first, second, name') ∈ foldedNames) : name = name' := by
  have hall : ∀ a ∈ foldedNames, ∀ b ∈ foldedNames, a.1 = b.1 → a.2.1 = b.2.1 → a.2.2 = b.2.2 := by
    decide
  exact hall _ h _ h' rfl rfl

theorem not_modifierPhrase_folded {t u : TypeRef} (h : (first, second, name) ∈ foldedNames) :
    ¬ ModifierPhrase t (.keyword second :: ks) u := by
  have hall : ∀ a ∈ foldedNames, a.2.1 = .PRECISION ∨ a.2.1 = .VARYING := by decide
  intro hphrase
  rcases hall _ h with rfl | rfl <;>
    rcases hphrase.head_eq with h | ⟨_, ⟨⟩⟩ | h | h <;> cases h

end Folded

theorem name?_of_word? {word : String} (h : k.word? = some word) : k.name? = some word := by
  cases k <;> first | exact h | cases h

theorem TypePhrase.exists_cons {u : TypeRef} (h : TypePhrase ks u) :
    ∃ k us, ks = k :: us ∧ ∃ name, k.name? = some name := by
  cases h with
  | name word | qualified word => exact ⟨_, _, rfl, _, word⟩
  | folded word => exact ⟨_, _, rfl, _, name?_of_word? word⟩

end Beginnings

section Ends

variable {k : Kind} {n m p p' : UInt32} {s s' dim dim' : Option UInt32} {ks ks' us us' : List Kind}

theorem IsSize.unique (h : IsSize k n) (h' : IsSize k m) : n = m := by
  obtain ⟨digits, rfl, -, -, hn⟩ := h
  obtain ⟨_, ⟨⟩, -, -, hm⟩ := h'
  exact UInt32.toNat_inj.1 (hn.symm.trans hm)

theorem IsSize.ne (h : IsSize k n) {k' : Kind} (hk' : ∀ digits, k' ≠ .number digits) : k ≠ k' := by
  obtain ⟨digits, rfl, -⟩ := h
  exact (hk' digits).symm

/-- Where a dimension ends is told by the kinds up to there. -/
theorem DimensionEnd.append_inj (h : DimensionEnd ks dim) (h' : DimensionEnd ks' dim')
    (heq : ks ++ us = ks' ++ us') : ks = ks' ∧ us = us' ∧ dim = dim' := by
  cases h with
  | unsized =>
    cases h' with
    | unsized => exact ⟨rfl, (List.cons.inj heq).2, rfl⟩
    | sized size => exact absurd (List.cons.inj heq).1.symm (size.ne (by simp))
  | sized size =>
    cases h' with
    | unsized => exact absurd (List.cons.inj heq).1 (size.ne (by simp))
    | sized size' =>
      obtain ⟨rfl, heq'⟩ := List.cons.inj heq
      exact ⟨rfl, (List.cons.inj heq').2, congrArg some (size.unique size')⟩

theorem ModifierEnd.append_inj (h : ModifierEnd ks p s) (h' : ModifierEnd ks' p' s')
    (heq : ks ++ us = ks' ++ us') : ks = ks' ∧ us = us' ∧ p = p' ∧ s = s' := by
  cases h with
  | precision size =>
    cases h' with
    | precision size' =>
      obtain ⟨rfl, heq'⟩ := List.cons.inj heq
      exact ⟨rfl, (List.cons.inj heq').2, size.unique size', rfl⟩
    | scale => simp at heq
  | scale size sizeScale =>
    cases h' with
    | precision => simp at heq
    | scale size' sizeScale' =>
      simp only [List.cons_append, List.nil_append, List.cons.injEq, true_and] at heq
      obtain ⟨rfl, rfl, rfl⟩ := heq
      exact ⟨rfl, rfl, size.unique size', congrArg some (sizeScale.unique sizeScale')⟩

theorem Dimensions.of_isPrefix {ds : List (Option UInt32)} {more : List Kind} (h : Dimensions ks ds)
    (hfirst : DimensionEnd us dim)
    (hks : ks <+: .leftBracket :: (us ++ more)) :
    ks = [] ∨ ∃ ks' ds', ks = .leftBracket :: (us ++ ks') ∧ ds = dim :: ds' ∧ Dimensions ks' ds' := by
  cases h with
  | nil => exact .inl rfl
  | @cons dim' us' ks' ds' first rest =>
    obtain ⟨more', heq⟩ := (List.cons_prefix_cons.1 hks).2
    rw [List.append_assoc] at heq
    obtain ⟨rfl, -, rfl⟩ := first.append_inj hfirst heq
    exact .inr ⟨ks', ds', rfl, rfl, rest⟩

theorem ArrayPhrase.of_array {dims : List (Option UInt32)}
    (h : ArrayPhrase (.keyword .ARRAY :: ks) dims) :
    (ks = [] ∧ dims = [none]) ∨ ∃ dim us, ks = .leftBracket :: us ∧ dims = [dim] ∧ DimensionEnd us dim := by
  cases h with
  | brackets dimensions => cases dimensions
  | array => exact .inl ⟨rfl, rfl⟩
  | bounded dimension => exact .inr ⟨_, _, rfl, rfl, dimension⟩

/-- What may begin with the opening parenthesis of the modifiers. -/
theorem ModifierPhrase.of_isPrefix {t u : TypeRef} {more : List Kind} (h : ModifierPhrase t ks u)
    (hend : ModifierEnd us p s) (hks : ks <+: .leftParen :: (us ++ more)) :
    ks = [] ∨ ∃ ks', ks = .leftParen :: (us ++ ks') ∧
      ZonePhrase { t with precision := some p, scale := s } ks' u := by
  cases h with
  | plain rest =>
    cases ks with
    | nil => exact .inl rfl
    | cons k ks =>
      obtain ⟨rfl, -⟩ := List.cons_prefix_cons.1 hks
      exact absurd rest ZonePhrase.not_leftParen
  | modified modifiers rest =>
    obtain ⟨more', heq⟩ := (List.cons_prefix_cons.1 hks).2
    rw [List.append_assoc] at heq
    obtain ⟨rfl, -, rfl, rfl⟩ := modifiers.append_inj hend heq
    exact .inr ⟨_, rfl, rest⟩

end Ends

namespace Reading

variable {f : β → α} {T : List Kind → β → Prop}

/-- Reading goes on behind tokens that have been read. Phrases that agree with what comes next are
those tokens and a phrase of the part that comes next; other phrases are no longer than the tokens. -/
theorem behind (front : List Token) {r : Except Error (β × List Token)} (h : Reading T ts r)
    (hphrase : ∀ ks b, T ks b → S (front.map (·.kind) ++ ks) (f b))
    (hrest : ∀ ks a, Meets ks (ts.map (·.kind)) → S (front.map (·.kind) ++ ks) a →
      ∃ b, T ks b ∧ a = f b)
    (hshort : ∀ ks a, ks <+: (front ++ ts).map (·.kind) → S ks a →
      front.map (·.kind) <+: ks ∨ ks.length ≤ front.length) :
    Reading S (front ++ ts) (r.map fun o => (f o.1, o.2)) := by
  have hlongest {front' : List Token} (hlong : Longest T ts front') :
      Longest S (front ++ ts) (front ++ front') := by
    intro ks a hks ha
    rw [List.length_append]
    rcases hshort ks a hks ha with ⟨ks', rfl⟩ | hlen
    · rw [List.map_append, List.prefix_append_right_inj] at hks
      obtain ⟨b, hb, -⟩ := hrest ks' a (.of_isPrefix hks) ha
      simpa using hlong ks' b hks hb
    · omega
  cases h with
  | @complete front' rest b split phrase longest closed =>
    subst split
    have hb : T (front'.map (·.kind)) b := (phrase b).2 rfl
    refine .complete (List.append_assoc ..).symm (fun a => ?_) (hlongest longest) ?_
    · rw [List.map_append]
      refine ⟨fun ha => ?_, fun ha => ha ▸ hphrase _ _ hb⟩
      obtain ⟨b', hb', rfl⟩ := hrest _ a (.of_isPrefix (by simp)) ha
      rw [(phrase b').1 hb']
    · rintro ⟨t, ht, hopens, more, a, ha⟩
      rw [List.map_append, List.append_assoc] at ha
      obtain ⟨rest', rfl⟩ := List.head?_eq_some_iff.1 ht
      have hmeets : Meets (front'.map (·.kind) ++ t.kind :: more)
          ((front' ++ t :: rest').map (·.kind)) := by
        rw [List.map_append]
        exact .of_append hopens more
      obtain ⟨b', hb', -⟩ := hrest _ a hmeets ha
      exact closed ⟨t, rfl, hopens, more, b', hb'⟩
  | @broken front' rest b l message split phrase longest begun =>
    subst split
    obtain ⟨t, ht, hopens, more, b', hb'⟩ := begun
    refine .broken (List.append_assoc ..).symm (a := f b) ?_ (hlongest longest) ?_
    · rw [List.map_append]
      exact hphrase _ _ phrase
    · refine ⟨t, ht, hopens, more, f b', ?_⟩
      rw [List.map_append, List.append_assoc]
      exact hphrase _ _ hb'

/-- A part that need not be there is read by itself where no other begins. -/
theorem from_here {r : Except Error (β × List Token)} (h : Reading T ts r)
    (hphrase : ∀ ks b, T ks b → S ks (f b))
    (hrest : ∀ ks a, Meets ks (ts.map (·.kind)) → S ks a → ∃ b, T ks b ∧ a = f b) :
    Reading S ts (r.map fun o => (f o.1, o.2)) :=
  h.behind [] hphrase hrest fun _ _ _ _ => .inl List.nil_prefix

/-- What comes next is read as it stands when the phrase adds nothing to it. -/
theorem behind_self (front : List Token) {T : List Kind → α → Prop}
    {r : Except Error (α × List Token)} (h : Reading T ts r)
    (hphrase : ∀ ks a, T ks a → S (front.map (·.kind) ++ ks) a)
    (hrest : ∀ ks a, Meets ks (ts.map (·.kind)) → S (front.map (·.kind) ++ ks) a → T ks a)
    (hshort : ∀ ks a, ks <+: (front ++ ts).map (·.kind) → S ks a →
      front.map (·.kind) <+: ks ∨ ks.length ≤ front.length) :
    Reading S (front ++ ts) r := by
  have hsame : r.map (fun o => (o.1, o.2)) = r := by cases r <;> rfl
  rw [← hsame]
  exact h.behind front (f := fun a => a) hphrase (fun ks a hks ha => ⟨a, hrest ks a hks ha, rfl⟩) hshort

/-- Phrases of one kind are those of the other where no other part begins. -/
theorem here_self {T : List Kind → α → Prop} {r : Except Error (α × List Token)}
    (h : Reading T ts r) (hphrase : ∀ ks a, T ks a → S ks a)
    (hrest : ∀ ks a, Meets ks (ts.map (·.kind)) → S ks a → T ks a) : Reading S ts r :=
  h.behind_self [] hphrase hrest fun _ _ _ _ => .inl List.nil_prefix

/-- The empty phrase is all there is where no part begins. -/
theorem nothing {a : α} (hnil : ∀ b, S [] b ↔ b = a)
    (hother : ∀ ks b, Meets ks (ts.map (·.kind)) → S ks b → ks = []) :
    Reading S ts (.ok (a, ts)) := by
  refine .complete (List.nil_append ts).symm hnil (fun ks b hks hb => ?_) ?_
  · rw [hother ks b (.of_isPrefix hks) hb]
    exact le_rfl
  · rintro ⟨t, ht, hopens, more, b, hb⟩
    obtain ⟨rest, rfl⟩ := List.head?_eq_some_iff.1 ht
    exact nomatch hother _ b (.opens hopens) hb

/-- A part that begins is missing its rest. -/
theorem unfinished {a b : α} {t : Token} {more : List Kind} {l : Text.Location} {message : String}
    (hnil : S [] a) (hopens : opensPart t.kind = true) (hmore : S (t.kind :: more) b)
    (hother : ∀ ks c, ks <+: (t :: ts).map (·.kind) → S ks c → ks = []) :
    Reading S (t :: ts) (.error (.typeSyntax l message)) := by
  refine .broken (List.nil_append _).symm hnil (fun ks c hks hc => ?_) ⟨t, rfl, hopens, more, b, hmore⟩
  rw [hother ks c hks hc]
  exact le_rfl

theorem acceptable {a : α} {rest : List Token} (h : Reading S ts (.ok (a, rest))) :
    Acceptable S (ts.map (·.kind)) := by
  cases h with
  | @complete front _ _ split phrase longest closed =>
    subst split
    refine ⟨⟨_, a, by simp, (phrase a).2 rfl⟩, ?_⟩
    rintro front' k rest' heq ⟨b, hb⟩ hopens ⟨more, c, hc⟩
    have hshort := longest front' b ⟨_, heq.symm⟩ hb
    rw [List.map_append] at heq
    rcases List.append_eq_append_iff.1 heq with ⟨us, rfl, hrest⟩ | ⟨us, hfront, hrest⟩
    · -- The phrase goes no further than the longest, so it is the longest.
      have hus : us = [] := by
        rw [List.length_append, List.length_map] at hshort
        exact List.length_eq_zero_iff.1 (by omega)
      subst hus
      obtain ⟨t, rest, rfl, rfl, -⟩ := List.map_eq_cons_iff.1 hrest
      rw [List.append_nil] at hc
      exact absurd ⟨t, rfl, hopens, more, c, hc⟩ closed
    · -- The longest phrase goes on behind it.
      cases us with
      | nil =>
        obtain ⟨t, rest, rfl, rfl, -⟩ := List.map_eq_cons_iff.1 hrest.symm
        rw [List.append_nil] at hfront
        exact absurd ⟨t, rfl, hopens, more, c, hfront ▸ hc⟩ closed
      | cons k' us =>
        obtain ⟨rfl, rfl⟩ := List.cons.inj hrest
        exact ⟨us, a, List.prefix_append _ _, hfront ▸ (phrase a).2 rfl⟩

theorem not_acceptable {e : Error} (h : Reading S ts (.error e)) :
    ¬ Acceptable S (ts.map (·.kind)) := by
  rintro ⟨-, hfinished⟩
  cases h with
  | @broken front rest a l message split phrase longest begun =>
    subst split
    obtain ⟨t, ht, hopens, hmore⟩ := begun
    obtain ⟨rest', rfl⟩ := List.head?_eq_some_iff.1 ht
    have hsplit : (front ++ t :: rest').map (·.kind) =
        front.map (·.kind) ++ t.kind :: rest'.map (·.kind) := by simp
    obtain ⟨more, b, hpre, hb⟩ := hfinished _ _ _ hsplit ⟨a, phrase⟩ hopens hmore
    have hprefix : front.map (·.kind) ++ t.kind :: more <+: (front ++ t :: rest').map (·.kind) := by
      rw [hsplit, List.prefix_append_right_inj, List.cons_prefix_cons]
      exact ⟨rfl, hpre⟩
    have hlong := longest _ b hprefix hb
    simp only [List.length_append, List.length_map, List.length_cons] at hlong
    omega

end Reading

end Grammar

end DdlCatalog
