import DdlCatalog.Config
import DdlCatalog.Proofs.Json.Record

/-! # Configurations in JSON
A configuration is read back from its text. An object of some fields of a configuration, in any order, is
read as the default with these fields replaced. -/

namespace DdlCatalog.Config

open Json (Symbol)
open Json.Reader (Change RecordField)

inductive Template where
  | primaryKey
  | unique
  | foreignKey
  | check
  | exclusion
  | index
deriving DecidableEq, Repr

namespace Template

def key : Template → String
  | primaryKey => "primary_key"
  | unique => "unique"
  | foreignKey => "foreign_key"
  | check => "check"
  | exclusion => "exclusion"
  | index => "index"

def set (n : Naming) (text : String) : Template → Naming
  | primaryKey => { n with primaryKey := text }
  | unique => { n with unique := text }
  | foreignKey => { n with foreignKey := text }
  | check => { n with check := text }
  | exclusion => { n with exclusion := text }
  | index => { n with index := text }

theorem key_injective : Function.Injective key := by
  intro t u h
  cases t <;> cases u <;> first | rfl | exact absurd h (by decide)

end Template

/-- The default templates with some of them replaced. -/
def renamed (templates : List (Template × String)) : Naming :=
  templates.foldl (fun n t => t.1.set n t.2) Naming.default

/-- A field of a configuration and its value. Of the templates some may be given. -/
inductive Setting where
  | defaultSchema (name : String)
  | naming (templates : List (Template × String))
  | extraTypes (names : List String)
  | singleSchemaPerSource (b : Bool)
deriving DecidableEq, Repr

namespace Setting

def key : Setting → String
  | defaultSchema _ => "default_schema"
  | naming _ => "naming"
  | extraTypes _ => "extra_types"
  | singleSchemaPerSource _ => "single_schema_per_source"

def json : Setting → Json
  | defaultSchema name => .string name
  | naming templates => .object (templates.map fun t => (t.1.key, .string t.2))
  | extraTypes names => .strings names
  | singleSchemaPerSource b => .bool b

def apply (c : Config) : Setting → Config
  | defaultSchema name => { c with defaultSchema := name }
  | naming templates => { c with naming := renamed templates }
  | extraTypes names => { c with extraTypes := names }
  | singleSchemaPerSource b => { c with singleSchemaPerSource := b }

def templates : Setting → List Template
  | naming templates => templates.map (·.1)
  | _ => []

end Setting

/-- The object that holds just these settings. -/
def settingsJson (settings : List Setting) : Json :=
  .object (settings.map fun s => (s.key, s.json))

/-- The default with just these settings replaced. -/
def overridden (settings : List Setting) : Config := settings.foldl Setting.apply default

/-- No field and no template is set twice. -/
structure Distinct (settings : List Setting) : Prop where
  keys : (settings.map (·.key)).Nodup
  templates : ∀ s ∈ settings, s.templates.Nodup

instance (settings : List Setting) : Decidable (Distinct settings) :=
  decidable_of_iff ((settings.map (·.key)).Nodup ∧ ∀ s ∈ settings, s.templates.Nodup)
    ⟨fun h => ⟨h.1, h.2⟩, fun h => ⟨h.keys, h.templates⟩⟩

def settings (c : Config) : List Setting :=
  [.defaultSchema c.defaultSchema,
    .naming [(.primaryKey, c.naming.primaryKey), (.unique, c.naming.unique),
      (.foreignKey, c.naming.foreignKey), (.check, c.naming.check),
      (.exclusion, c.naming.exclusion), (.index, c.naming.index)],
    .extraTypes c.extraTypes, .singleSchemaPerSource c.singleSchemaPerSource]

theorem toJson_eq (c : Config) : c.toJson = settingsJson c.settings := rfl

theorem overridden_settings (c : Config) : overridden c.settings = c := by
  simp only [overridden, settings, List.foldl_cons, List.foldl_nil, Setting.apply, renamed,
    Template.set]

theorem distinct_settings (c : Config) : Distinct c.settings where
  keys := by
    show ["default_schema", "naming", "extra_types", "single_schema_per_source"].Nodup
    decide
  templates s hs := by
    simp only [settings, List.mem_cons, List.not_mem_nil, or_false] at hs
    rcases hs with rfl | rfl | rfl | rfl
    · exact .nil
    · show [Template.primaryKey, .unique, .foreignKey, .check, .exclusion, .index].Nodup
      decide
    · exact .nil
    · exact .nil

variable {settings : List Setting} {s : Setting}

theorem field_read {ρ α : Type} {name : String} {read : Json.Reader α} {set : ρ → α → ρ}
    {symbols rest : List Symbol} {a : α} (h : read (symbols ++ rest) = some (a, rest)) (r : ρ) :
    (field name read set).read r (symbols ++ rest) = some (set r a, rest) := by
  show (read (symbols ++ rest)).map _ = _
  rw [h]
  rfl

def Template.change (t : Template × String) : Change Naming :=
  ⟨t.1.key, .string t.2, fun n => t.1.set n t.2⟩

def Template.field (t : Template) : RecordField Naming :=
  Config.field t.key Json.Reader.string fun n text => t.set n text

theorem namingFields_eq : namingFields =
    [Template.primaryKey, .unique, .foreignKey, .check, .exclusion, .index].map Template.field := rfl

theorem Template.isReadBy (t : Template × String) : (Template.change t).IsReadBy namingFields := by
  refine ⟨t.1.field, ?_, rfl, fun n rest => field_read (Json.Reader.string_symbols t.2 rest) n⟩
  rw [namingFields_eq]
  refine List.mem_map_of_mem ?_
  cases t.1 <;> decide

/-- The templates that an object holds replace those of the default. -/
theorem record_naming {templates : List (Template × String)} (h : (templates.map (·.1)).Nodup)
    (rest : List Symbol) :
    Json.Reader.record namingFields Naming.default ((Setting.naming templates).json.symbols ++ rest) =
      some (renamed templates, rest) := by
  have hnames : (namingFields.map (·.name)).Nodup := by
    show ["primary_key", "unique", "foreign_key", "check", "exclusion", "index"].Nodup
    decide
  have hdistinct : ((templates.map Template.change).map (·.name)).Nodup := by
    rw [List.map_map]
    have hkeys := h.map Template.key_injective
    rwa [List.map_map] at hkeys
  have hread : ∀ m ∈ templates.map Template.change, m.IsReadBy namingFields :=
    List.forall_mem_map.2 fun t _ => Template.isReadBy t
  have hrecord := Json.Reader.record_object hnames hdistinct hread Naming.default rest
  rw [List.map_map, Change.all, List.foldl_map] at hrecord
  exact hrecord

def Setting.change (s : Setting) : Change Config := ⟨s.key, s.json, fun c => s.apply c⟩

theorem Setting.isReadBy (h : s.templates.Nodup) : s.change.IsReadBy fields := by
  cases s with
  | defaultSchema name =>
    exact ⟨_, .head _, rfl, fun c rest => field_read (Json.Reader.string_symbols name rest) c⟩
  | naming templates =>
    exact ⟨_, .tail _ (.head _), rfl, fun c rest => field_read (record_naming h rest) c⟩
  | extraTypes names =>
    exact ⟨_, .tail _ (.tail _ (.head _)), rfl,
      fun c rest => field_read (Json.Reader.strings_symbols names rest) c⟩
  | singleSchemaPerSource b =>
    exact ⟨_, .tail _ (.tail _ (.tail _ (.head _))), rfl,
      fun c rest => field_read (Json.Reader.bool_symbols b rest) c⟩

theorem record_settings (h : Distinct settings) (rest : List Symbol) :
    Json.Reader.record fields default ((settingsJson settings).symbols ++ rest) =
      some (overridden settings, rest) := by
  have hnames : (fields.map (·.name)).Nodup := by
    show ["default_schema", "naming", "extra_types", "single_schema_per_source"].Nodup
    decide
  have hdistinct : ((settings.map Setting.change).map (·.name)).Nodup := by
    rw [List.map_map]
    exact h.keys
  have hread : ∀ m ∈ settings.map Setting.change, m.IsReadBy fields :=
    List.forall_mem_map.2 fun s hs => Setting.isReadBy (h.templates s hs)
  have hrecord := Json.Reader.record_object hnames hdistinct hread default rest
  rw [List.map_map, Change.all, List.foldl_map] at hrecord
  exact hrecord

theorem numberless_settingsJson (settings : List Setting) :
    Json.numberless (settingsJson settings) = true := by
  refine Json.membersNumberless_of_forall (List.forall_mem_map.2 fun s _ => ?_)
  cases s with
  | defaultSchema name => rfl
  | naming templates => exact Json.membersNumberless_of_forall (List.forall_mem_map.2 fun _ _ => rfl)
  | extraTypes names => exact Json.itemsNumberless_of_forall (List.forall_mem_map.2 fun _ _ => rfl)
  | singleSchemaPerSource b => rfl

/-- Every text of the object of some settings is read as the default with these settings, and so is the
one that is printed. -/
theorem ofJson?_settings (h : Distinct settings) :
    (∀ text, Symbol.ofText? text.toList = some (settingsJson settings).symbols →
      ofJson? text = some (overridden settings)) ∧
    ofJson? (settingsJson settings).pretty = some (overridden settings) := by
  have hread (text : String) (htext : Symbol.ofText? text.toList = some (settingsJson settings).symbols) :
      ofJson? text = some (overridden settings) :=
    Json.Reader.ofText?_eq_some htext (record_settings h)
  exact ⟨hread, hread _ (Json.ofText?_pretty (numberless_settingsJson settings))⟩

/-- A configuration is read back from its text, whatever characters are in its strings. The object of some
of the fields, and of some of the templates, in any order and however it is written, is read as the default
with just these replaced. -/
theorem ofJson?_toJson :
    (∀ c : Config, ofJson? c.toJson.pretty = some c) ∧
    ∀ settings, Distinct settings →
      (∀ text, Symbol.ofText? text.toList = some (settingsJson settings).symbols →
        ofJson? text = some (overridden settings)) ∧
      ofJson? (settingsJson settings).pretty = some (overridden settings) := by
  refine ⟨fun c => ?_, fun settings h => ofJson?_settings h⟩
  rw [toJson_eq, (ofJson?_settings (distinct_settings c)).2, overridden_settings]

/-- A quote, a backslash, a control character and one beyond the basic plane. -/
def strangeSettings : List Setting :=
  [.naming [(.index, "\"\\\x01😀"), (.check, "")], .defaultSchema "é\n"]

/-- The same with escapes where none are needed, and little space. -/
def strangeText : String :=
  "\x7b\"naming\":\x7b\"in\\u0064ex\":\"\\u0022\\\\\\u0001\\uD83D\\uDE00\" ,\"check\":\"\"\x7d," ++
    "\"default_schema\":\"\\u00e9\\n\"\x7d"

theorem ofJson?_strangeText :
    Distinct strangeSettings ∧
      Symbol.ofText? strangeText.toList = some (settingsJson strangeSettings).symbols ∧
      ofJson? strangeText = some { default with
        defaultSchema := "é\n",
        naming := { Naming.default with check := "", index := "\"\\\x01😀" } } ∧
      ofJson? (settingsJson strangeSettings).pretty = ofJson? strangeText := by
  have hdistinct : Distinct strangeSettings := by decide
  have hsymbols : Symbol.ofText? strangeText.toList = some (settingsJson strangeSettings).symbols := by
    decide +kernel
  obtain ⟨hread, hprinted⟩ := ofJson?_toJson.2 strangeSettings hdistinct
  exact ⟨hdistinct, hsymbols, hread _ hsymbols, hprinted.trans (hread _ hsymbols).symm⟩

end DdlCatalog.Config
