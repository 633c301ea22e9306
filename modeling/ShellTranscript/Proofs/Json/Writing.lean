import Mathlib.Tactic.Common
import ShellTranscript.Proofs.Json.Scanning

-- What is written is JSON, and of a value it is one of the spellings.
namespace ShellTranscript

open Text JsonReader Spelling

namespace JsonValue

variable {keep : Bool}

theorem digits?_control : ∀ n < 32, Numeral.digits? Numeral.hexDigit? 16
    ['0', '0', hexDigit (n / 16), hexDigit n] = some n := by
  decide

theorem symbol_write (keep : Bool) (c : Char) : Symbol keep c (writeChar c) := by
  unfold writeChar
  split
  case h_8 hquote hslash _ _ _ _ _ =>
    split
    · rename_i hcontrol
      have hcode : Symbol keep (Char.ofNat c.toNat)
          ('\\' :: 'u' :: ['0', '0', hexDigit (c.toNat / 16), hexDigit c.toNat]) := by
        refine .code ⟨rfl, digits?_control c.toNat hcontrol⟩ fun _ => ?_
        simp only [isHighSurrogate, isLowSurrogate, Bool.and_eq_false_iff, decide_eq_false_iff_not]
        omega
      rwa [Char.ofNat_toNat] at hcode
    · rename_i hprintable
      exact .plain (Nat.le_of_not_lt hprintable) hquote hslash
  all_goals exact .short (by decide)

theorem symbols_write (keep : Bool) (t : Text) : Symbols keep t (t.flatMap writeChar) := by
  induction t with
  | nil => exact .nil
  | cons c t ih => exact .cons (symbol_write keep c) ih

theorem text_write (t : Text) : Spelling.text t (text t).write :=
  ⟨_, symbols_write true t, write.eq_def _⟩

theorem number_write (n : Int) : Spelling.number n (number n).write := write.eq_def _

theorem ofNat_write (n : Nat) : Spelling.number n (ofNat n).write := number_write n

theorem option_write {α : Type} {f : α → Spelling} {toJson : α → JsonValue}
    (h : ∀ a, f a (toJson a).write) (o : Option α) :
    Spelling.option f o (ofOption toJson o).write := by
  cases o with
  | none => exact write.eq_def _
  | some a => exact h a

theorem isNumber_write (n : Int) : IsNumber (writeNumber n) := by
  have h : ∀ (sign : Text) (m : Nat), sign = [] ∨ sign = ['-'] →
      IsNumber (sign ++ (Nat.toDigits 10 m ++ ([] ++ []))) := fun sign m hsign =>
    .mk hsign (isDigits_toDigits m) toDigits_head (.inl rfl) (.inl rfl)
  cases n with
  | ofNat n =>
    show IsNumber (Nat.toDigits 10 n)
    simpa using h [] n (.inl rfl)
  | negSucc n =>
    show IsNumber ('-' :: Nat.toDigits 10 (n + 1))
    simpa using h ['-'] (n + 1) (.inr rfl)

section Given

variable {items : List JsonValue} {spellings : List Spelling} {value : Text → Spelling}
  {fields : List (Text × JsonValue)}

theorem items_write (hne : items ≠ [])
    (h : List.Forall₂ (fun spelling item => spelling item.write) spellings items) :
    Items spellings (writeItems items) := by
  induction h with
  | nil => exact absurd rfl hne
  | @cons spelling item spellings items hitem hmore ih =>
    cases hmore with
    | nil => simpa [writeItems] using Items.last hitem blanks_nil
    | cons hnext hmore =>
      simpa [writeItems] using Items.cons hitem blanks_nil blanks_nil (ih (List.cons_ne_nil _ _))

theorem array_write
    (h : List.Forall₂ (fun spelling item => spelling item.write) spellings items) :
    Spelling.array spellings (array items).write := by
  refine ⟨[], writeItems items, blanks_nil, ?_, by simp [write]⟩
  by_cases hne : items = []
  · subst hne
    cases h
    exact .inl ⟨rfl, by simp [writeItems]⟩
  · exact .inr (items_write hne h)

theorem member_write {name : Text} {v : JsonValue} (h : value name v.write) :
    Member (value name) name (writeText name ++ ':' :: v.write) :=
  ⟨_, [], [], _, [], symbols_write true name, blanks_nil, blanks_nil, h, blanks_nil,
    by simp [writeText]⟩

theorem members_write (hne : fields ≠ []) (h : ∀ field ∈ fields, value field.1 field.2.write) :
    Members value (fields.map Prod.fst) (writeFields fields) := by
  induction fields with
  | nil => exact absurd rfl hne
  | cons field fields ih =>
    obtain ⟨name, v⟩ := field
    have hmember := member_write (h (name, v) List.mem_cons_self)
    cases fields with
    | nil => simpa [writeFields] using Members.last hmember
    | cons next fields =>
      have hmore := ih (List.cons_ne_nil _ _) fun field hfield =>
        h field (List.mem_cons_of_mem _ hfield)
      simpa [writeFields] using Members.cons hmember blanks_nil hmore

theorem object_write (h : ∀ field ∈ fields, value field.1 field.2.write) :
    Spelling.object value (fields.map Prod.fst) (object fields).write := by
  refine ⟨[], writeFields fields, blanks_nil, ?_, by simp [write]⟩
  by_cases hne : fields = []
  · subst hne
    exact .inl ⟨rfl, by simp [writeFields]⟩
  · exact .inr (members_write hne h)

theorem record_write {fields : List (String × JsonValue)}
    (h : ∀ field ∈ fields, value field.1.toList field.2.write) :
    Spelling.object value (fields.map fun field => field.1.toList) (record fields).write := by
  have hobject : Spelling.object value
      ((fields.map fun field => (field.1.toList, field.2)).map Prod.fst) (record fields).write :=
    object_write (List.forall_mem_map.mpr h)
  rwa [List.map_map] at hobject

-- An enumerator with a payload is written as its only member.
theorem payload_write {value : Spelling} {v : JsonValue} (name : String) (h : value v.write) :
    Spelling.object (fun _ => value) [name.toList] (record [(name, v)]).write := by
  have hfield : ∀ field ∈ [(name, v)], value field.2.write := List.forall_mem_singleton.mpr h
  show Spelling.object (fun _ => value) ([(name, v)].map fun field => field.1.toList) _
  exact record_write hfield

end Given

mutual

theorem any_write : ∀ v : JsonValue, IsJson .value v.write
  | null => by rw [write]; exact .null
  | bool true => by rw [write]; exact .true
  | bool false => by rw [write]; exact .false
  | number n => by rw [write]; exact .number (isNumber_write n)
  | text t => by rw [write]; exact .text (symbols_write false t)
  | array [] => by simpa [write, writeItems] using IsJson.emptyArray blanks_nil
  | array (item :: items) => by
    simpa [write] using IsJson.array blanks_nil (anyItems_write (item :: items) (List.cons_ne_nil _ _))
  | object [] => by simpa [write, writeFields] using IsJson.emptyObject blanks_nil
  | object (field :: fields) => by
    simpa [write] using IsJson.object blanks_nil
      (anyFields_write (field :: fields) (List.cons_ne_nil _ _))

theorem anyItems_write : ∀ items : List JsonValue, items ≠ [] → IsJson .items (writeItems items)
  | [], hne => absurd rfl hne
  | [item], _ => by simpa [writeItems] using IsJson.lastItem (any_write item) blanks_nil
  | item :: next :: items, _ => by
    simpa [writeItems] using IsJson.item (any_write item) blanks_nil blanks_nil
      (anyItems_write (next :: items) (List.cons_ne_nil _ _))

theorem anyFields_write : ∀ fields : List (Text × JsonValue), fields ≠ [] →
    IsJson .members (writeFields fields)
  | [], hne => absurd rfl hne
  | [(name, v)], _ => by
    simpa [writeFields, writeText] using IsJson.lastMember (symbols_write false name) blanks_nil
      blanks_nil (any_write v) blanks_nil
  | (name, v) :: next :: fields, _ => by
    simpa [writeFields, writeText] using IsJson.member (symbols_write false name) blanks_nil
      blanks_nil (any_write v) blanks_nil blanks_nil
      (anyFields_write (next :: fields) (List.cons_ne_nil _ _))

end

end JsonValue

end ShellTranscript
