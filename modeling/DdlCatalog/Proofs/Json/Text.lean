import DdlCatalog.Json.Printer
import DdlCatalog.Json.Symbol
import Mathlib.Tactic.SplitIfs

/-! # Printed values read again
The text of a value is read as the symbols that the value is made of. What is escaped inside a string is
found again, be it a quote, a backslash or a control character. -/

namespace DdlCatalog.Json

variable {cs ds rest : List Char} {xs ys : List Symbol} {c : Char} {symbol : Symbol}

mutual

/-- The symbols that a value is made of. A number that is not finite is written as `null`. -/
def symbols : Json → List Symbol
  | null => [.null]
  | bool b => [.bool b]
  | integer _ => [.number]
  | float x => [if x.isFinite then .number else .null]
  | string s => [.string (some s)]
  | array [] => [.openArray, .closeArray]
  | array (item :: items) => .openArray :: (symbols item ++ itemSymbols items)
  | object [] => [.openObject, .closeObject]
  | object ((key, value) :: members) =>
    .openObject :: .string (some key) :: .colon :: (symbols value ++ memberSymbols members)

/-- The symbols of the items after the first, and of the end of their array. -/
def itemSymbols : List Json → List Symbol
  | [] => [.closeArray]
  | item :: items => .comma :: (symbols item ++ itemSymbols items)

/-- The symbols of the members after the first, and of the end of their object. -/
def memberSymbols : List (String × Json) → List Symbol
  | [] => [.closeObject]
  | (key, value) :: members =>
    .comma :: .string (some key) :: .colon :: (symbols value ++ memberSymbols members)

end

mutual

/-- Whether there are no numbers in a value. -/
def numberless : Json → Bool
  | integer _ => false
  | float _ => false
  | array items => itemsNumberless items
  | object members => membersNumberless members
  | _ => true

def itemsNumberless : List Json → Bool
  | [] => true
  | item :: items => numberless item && itemsNumberless items

def membersNumberless : List (String × Json) → Bool
  | [] => true
  | (_, value) :: members => numberless value && membersNumberless members

end

theorem itemsNumberless_of_forall {items : List Json} (h : ∀ item ∈ items, numberless item = true) :
    itemsNumberless items = true := by
  induction items with
  | nil => rfl
  | cons item items ih =>
    obtain ⟨hitem, hitems⟩ := List.forall_mem_cons.1 h
    exact Bool.and_eq_true_iff.2 ⟨hitem, ih hitems⟩

theorem membersNumberless_of_forall {members : List (String × Json)}
    (h : ∀ m ∈ members, numberless m.2 = true) : membersNumberless members = true := by
  induction members with
  | nil => rfl
  | cons m members ih =>
    obtain ⟨hm, hmembers⟩ := List.forall_mem_cons.1 h
    exact Bool.and_eq_true_iff.2 ⟨hm, ih hmembers⟩

/-- A text is read as these symbols, whatever follows it. -/
def Spells (cs : List Char) (xs : List Symbol) : Prop :=
  ∀ rest, Symbol.ofText? (cs ++ rest) = (Symbol.ofText? rest).map (xs ++ ·)

namespace Spells

theorem nil : Spells [] [] := by
  intro rest
  simp

theorem append (h : Spells cs xs) (h' : Spells ds ys) : Spells (cs ++ ds) (xs ++ ys) := by
  intro rest
  rw [List.append_assoc, h, h', Option.map_map]
  congr 1
  funext zs
  simp

theorem blank (hc : Symbol.isBlank c = true) (h : Spells cs xs) : Spells (c :: cs) xs := by
  intro rest
  rw [List.cons_append, Symbol.ofText?, if_pos hc, h]

theorem one (hc : Symbol.isBlank c = false)
    (hscan : ∀ rest, Symbol.scan c (cs ++ rest) = some (symbol, cs.length)) :
    Spells (c :: cs) [symbol] := by
  intro rest
  rw [List.cons_append, Symbol.ofText?, if_neg (by simp [hc]), hscan]
  simp only [List.drop_left, List.singleton_append]

theorem ofText? (h : Spells cs xs) : Symbol.ofText? cs = some xs := by
  have hnil := h []
  rwa [List.append_nil, Symbol.ofText?, Option.map_some, List.append_nil] at hnil

end Spells

theorem spells_newline (depth : Nat) : Spells (newline depth) [] := by
  have hblanks (n : Nat) : Spells (List.replicate n ' ') [] := by
    induction n with
    | zero => exact .nil
    | succ n ih => exact .blank rfl ih
  exact .blank rfl (hblanks _)

theorem hexQuad?_control : ∀ n < 32,
    Symbol.hexQuad? '0' '0' (hexDigit (n / 16)) (hexDigit (n % 16)) = some n := by
  decide

/-- A backslash and the letter of a character stand for the character. -/
theorem content?_letter {letter : Char} (hu : letter ≠ 'u') (h : Symbol.unescape? letter = some c)
    (rest : List Char) : Symbol.content? ('\\' :: letter :: rest) =
      (Symbol.content? rest).map (·.cons c 2) := by
  conv => lhs; rw [Symbol.content?.eq_def]
  dsimp only
  rw [if_neg (by decide), if_pos rfl, if_neg hu, h]

/-- What is written for a character inside a string is read as the character. -/
theorem content?_escapeChar (c : Char) (rest : List Char) :
    Symbol.content? (escapeChar c ++ rest) =
      (Symbol.content? rest).map (·.cons c (escapeChar c).length) := by
  unfold escapeChar
  split_ifs with hquote hbackslash hb hf hn hr ht hcontrol
  · subst hquote; exact content?_letter (by decide) rfl rest
  · subst hbackslash; exact content?_letter (by decide) rfl rest
  · subst hb; exact content?_letter (by decide) rfl rest
  · subst hf; exact content?_letter (by decide) rfl rest
  · subst hn; exact content?_letter (by decide) rfl rest
  · subst hr; exact content?_letter (by decide) rfl rest
  · subst ht; exact content?_letter (by decide) rfl rest
  · have hhigh : Symbol.isHighSurrogate c.toNat = false := by
      simp only [Symbol.isHighSurrogate, Bool.and_eq_false_iff, decide_eq_false_iff_not]
      omega
    have hlow : Symbol.isLowSurrogate c.toNat = false := by
      simp only [Symbol.isLowSurrogate, Bool.and_eq_false_iff, decide_eq_false_iff_not]
      omega
    simp only [List.cons_append, List.nil_append]
    conv => lhs; rw [Symbol.content?.eq_def]
    dsimp only
    rw [if_neg (by decide), if_pos rfl, if_pos rfl, hexQuad?_control _ hcontrol]
    dsimp only
    rw [if_neg (by simp [hhigh]), if_neg (by simp [hlow]), Char.ofNat_toNat]
    rfl
  · rw [List.singleton_append]
    conv => lhs; rw [Symbol.content?.eq_def]
    dsimp only
    rw [if_neg hquote, if_neg hbackslash, if_neg hcontrol]
    rfl

theorem content?_escaped (cs rest : List Char) :
    ∃ content : Symbol.Content, Symbol.content? (cs.flatMap escapeChar ++ '"' :: rest) = some content ∧
      content.text = some cs ∧ content.length = (cs.flatMap escapeChar ++ ['"']).length := by
  induction cs with
  | nil =>
    refine ⟨⟨some [], 1⟩, ?_, rfl, rfl⟩
    rw [List.flatMap_nil, List.nil_append, Symbol.content?.eq_def]
    exact if_pos rfl
  | cons c cs ih =>
    obtain ⟨content, hcontent, htext, hlength⟩ := ih
    refine ⟨content.cons c (escapeChar c).length, ?_, ?_, ?_⟩
    · rw [List.flatMap_cons, List.append_assoc, content?_escapeChar, hcontent]
      rfl
    · simp [Symbol.Content.cons, htext]
    · simp [Symbol.Content.cons, hlength]

theorem spells_quote (s : String) : Spells (quote s.toList) [.string (some s)] := by
  rw [quote, List.cons_append]
  refine .one rfl fun rest => ?_
  obtain ⟨content, hcontent, htext, hlength⟩ := content?_escaped s.toList rest
  rw [List.append_assoc, List.singleton_append, ← hlength]
  unfold Symbol.scan
  simp only [Char.reduceEq, if_false, if_true, hcontent, Option.map_some, htext, String.ofList_toList]

variable {value : Json}

theorem spells_key (key : String) (h : Spells cs xs) :
    Spells (quote key.toList ++ ':' :: ' ' :: cs) (.string (some key) :: .colon :: xs) := by
  have hcolon : Spells [':'] [.colon] := .one rfl fun _ => rfl
  exact (spells_quote key).append (hcolon.append (h.blank rfl))

mutual

/-- A value without numbers is written as the symbols that it is made of. -/
theorem spells_format (depth : Nat) : (value : Json) → numberless value = true →
    Spells (format depth value) (symbols value)
  | null, _ => .one rfl fun _ => rfl
  | bool true, _ => .one rfl fun _ => rfl
  | bool false, _ => .one rfl fun _ => rfl
  | integer _, h => nomatch h
  | float _, h => nomatch h
  | string s, _ => spells_quote s
  | array [], _ => by
    have hopen : Spells ['['] [.openArray] := .one rfl fun _ => rfl
    have hclose : Spells [']'] [.closeArray] := .one rfl fun _ => rfl
    exact hopen.append hclose
  | array (item :: items), h => by
    obtain ⟨hitem, hitems⟩ := Bool.and_eq_true_iff.1 h
    have hopen : Spells ['['] [.openArray] := .one rfl fun _ => rfl
    have hall := ((spells_newline (depth + 1)).append (spells_format (depth + 1) item hitem)).append
      (spells_formatItems (depth + 1) depth items hitems)
    have hwhole := hopen.append hall
    simpa [format, symbols] using hwhole
  | object [], _ => by
    have hopen : Spells ['\x7b'] [.openObject] := .one rfl fun _ => rfl
    have hclose : Spells ['\x7d'] [.closeObject] := .one rfl fun _ => rfl
    exact hopen.append hclose
  | object ((key, value) :: members), h => by
    obtain ⟨hvalue, hmembers⟩ := Bool.and_eq_true_iff.1 h
    have hopen : Spells ['\x7b'] [.openObject] := .one rfl fun _ => rfl
    have hall := ((spells_newline (depth + 1)).append
      (spells_key key (spells_format (depth + 1) value hvalue))).append
        (spells_formatMembers (depth + 1) depth members hmembers)
    have hwhole := hopen.append hall
    simpa [format, symbols] using hwhole

theorem spells_formatItems (depth around : Nat) : (items : List Json) → itemsNumberless items = true →
    Spells (formatItems depth items ++ (newline around ++ [']'])) (itemSymbols items)
  | [], _ => by
    have hclose : Spells [']'] [.closeArray] := .one rfl fun _ => rfl
    exact (spells_newline around).append hclose
  | item :: items, h => by
    obtain ⟨hitem, hitems⟩ := Bool.and_eq_true_iff.1 h
    have hcomma : Spells [','] [.comma] := .one rfl fun _ => rfl
    have hall := ((spells_newline depth).append (spells_format depth item hitem)).append
      (spells_formatItems depth around items hitems)
    have hwhole := hcomma.append hall
    simpa [formatItems, itemSymbols] using hwhole

theorem spells_formatMembers (depth around : Nat) : (members : List (String × Json)) →
    membersNumberless members = true →
    Spells (formatMembers depth members ++ (newline around ++ ['\x7d'])) (memberSymbols members)
  | [], _ => by
    have hclose : Spells ['\x7d'] [.closeObject] := .one rfl fun _ => rfl
    exact (spells_newline around).append hclose
  | (key, value) :: members, h => by
    obtain ⟨hvalue, hmembers⟩ := Bool.and_eq_true_iff.1 h
    have hcomma : Spells [','] [.comma] := .one rfl fun _ => rfl
    have hall := ((spells_newline depth).append (spells_key key (spells_format depth value hvalue))).append
      (spells_formatMembers depth around members hmembers)
    have hwhole := hcomma.append hall
    simpa [formatMembers, memberSymbols] using hwhole

end

theorem ofText?_pretty (h : numberless value = true) :
    Symbol.ofText? (pretty value).toList = some (symbols value) := by
  rw [pretty, String.toList_ofList]
  exact (spells_format 0 value h).ofText?

end DdlCatalog.Json
