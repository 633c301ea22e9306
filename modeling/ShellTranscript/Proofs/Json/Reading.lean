import Mathlib.Tactic.Common
import ShellTranscript.Proofs.Json.Scanning

-- What is read of a value does not depend on how it is spelled. A record is built up member by
-- member, in whatever order they come, and what is not known of it leaves no trace.
namespace ShellTranscript.JsonReader

open Text Spelling

variable {α β : Type}

section Simple

variable {read : JsonReader α} {value : Spelling} {a : α}

theorem Reads.map (h : Reads read value a) (f : α → β) : Reads (f <$> read) value (f a) := by
  intro w v rest hw hv hrest
  rw [StateT.run_map, h w v rest hw hv hrest]
  rfl

theorem Reads.document (h : Reads read value a) {t : Text} (ht : Spelling.document value t) :
    readAll read t = .ok a := by
  obtain ⟨w, v, w', hw, hv, hw', rfl⟩ := ht
  have hrest : Stops w' := by
    rw [← List.append_nil w']
    exact Stops.blanks (fun c hc => by cases hc) hw'
  have hblank : w'.dropWhile isJsonBlank = [] := by
    rw [← List.append_nil w', List.dropWhile_append_of_pos hw']
    rfl
  rw [readAll, List.append_assoc, h w v w' hw hv hrest]
  simp only [bind, Except.bind, hblank]
  rfl

theorem reads_bool (b : Bool) : Reads bool (Spelling.bool b) b := by
  rintro w v rest hw rfl -
  cases b with
  | true =>
    refine (peek_bind hw (c := 't') rfl (['r', 'u', 'e'] ++ rest) _).trans ?_
    rw [if_pos rfl]
    exact run_bind (run_literal "true".toList rest) _
  | false =>
    refine (peek_bind hw (c := 'f') rfl (['a', 'l', 's', 'e'] ++ rest) _).trans ?_
    rw [if_neg (by decide), if_pos rfl]
    exact run_bind (run_literal "false".toList rest) _

theorem writeNumber_head (n : Int) :
    ∃ c t, JsonValue.writeNumber n = c :: t ∧ (c = '-' ∨ isDigit c = true) := by
  cases n with
  | ofNat n =>
    cases hn : Nat.toDigits 10 n with
    | nil => exact absurd hn Nat.toDigits_ne_nil
    | cons c t =>
      exact ⟨c, t, hn, .inr (isDigit_of_mem_toDigits (hn ▸ List.mem_cons_self))⟩
  | negSucc n => exact ⟨'-', _, rfl, .inl rfl⟩

theorem reads_integer {low high n : Int} (hlow : low ≤ n) (hhigh : n ≤ high)
    (hword : -0x8000000000000000 ≤ n ∧ n ≤ maxOffset) :
    Reads (integer low high) (Spelling.number n) n := by
  rintro w v rest hw rfl hrest
  have hnumber := run_number hword.1 hword.2 hrest.endsNumber
  obtain ⟨c, t, hcons, hc⟩ := writeNumber_head n
  rw [hcons] at hnumber ⊢
  refine (peek_bind hw (isJsonBlank_of_number hc) _ _).trans ?_
  rw [if_pos hc]
  refine (run_bind hnumber _).trans ?_
  dsimp only
  rw [if_pos ⟨hlow, hhigh⟩]
  rfl

theorem reads_natural {bits n : Nat} (hbits : bits ≤ 64) (hn : n ≤ Nat.pow 2 bits - 1) :
    Reads (natural bits) (Spelling.number n) n := by
  have hword : n ≤ maxOffset :=
    Nat.le_trans hn (Nat.sub_le_sub_right (Nat.pow_le_pow_right (by decide) hbits) 1)
  have hlow : (0 : Int) ≤ n := Int.natCast_nonneg n
  exact (reads_integer hlow (Int.ofNat_le.mpr hn) ⟨by omega, Int.ofNat_le.mpr hword⟩).map Int.toNat

theorem run_text {t w q : Text} (hw : Blanks w) (hq : Symbols true t q) (rest : Text) :
    text.run (w ++ '"' :: (q ++ '"' :: rest)) = .ok (t, rest) := by
  refine (peek_bind hw (c := '"') rfl _ _).trans ?_
  rw [if_pos rfl]
  exact run_quotedText hq rest

theorem run_parsed {parse : Text → Option α} {t w q : Text} (h : parse t = some a) (hw : Blanks w)
    (hq : Symbols true t q) (rest : Text) :
    (parsed parse).run (w ++ '"' :: (q ++ '"' :: rest)) = .ok (a, rest) := by
  rw [parsed, run_bind (run_text hw hq rest), h]
  rfl

theorem reads_text (t : Text) : Reads text (Spelling.text t) t := by
  rintro w v rest hw ⟨q, hq, rfl⟩ -
  simpa using run_text hw hq rest

theorem reads_parsed {parse : Text → Option α} {t : Text} (h : parse t = some a) :
    Reads (parsed parse) (Spelling.text t) a := by
  rintro w v rest hw ⟨q, hq, rfl⟩ -
  simpa using run_parsed h hw hq rest

end Simple

-- A value that is not null is known from its first character, and so is the end of an array.
def Opens (item : Spelling) : Prop :=
  ∀ v, item v → ∃ c t, v = c :: t ∧ isJsonBlank c = false ∧ c ≠ ']' ∧ c ≠ 'n'

theorem opens_text (t : Text) : Opens (Spelling.text t) := by
  rintro v ⟨q, -, rfl⟩
  exact ⟨'"', _, rfl, by decide⟩

theorem opens_number (n : Int) : Opens (Spelling.number n) := by
  rintro v rfl
  obtain ⟨c, t, hcons, hc⟩ := writeNumber_head n
  exact ⟨c, t, hcons, isJsonBlank_of_number hc, number_ne hc (by decide) rfl,
    number_ne hc (by decide) rfl⟩

theorem opens_object (value : Text → Spelling) (names : List Text) :
    Opens (Spelling.object value names) := by
  rintro v ⟨w, t, -, -, rfl⟩
  exact ⟨'{', _, rfl, by decide⟩

theorem opens_record (known : List (String × Spelling)) : Opens (Spelling.record known) := by
  rintro v ⟨names, -, -, hv⟩
  exact opens_object _ names v hv

-- Nothing but null starts like null.
theorem reads_optional {read : JsonReader α} {f : α → Spelling} (o : Option α)
    (h : ∀ a ∈ o, Reads read (f a) a) (hopens : ∀ a ∈ o, Opens (f a)) :
    Reads (optional read) (Spelling.option f o) o := by
  intro w v rest hw hv hrest
  cases o with
  | none =>
    obtain rfl : v = "null".toList := hv
    refine (peek_bind hw (c := 'n') rfl (['u', 'l', 'l'] ++ rest) _).trans ?_
    rw [if_pos rfl]
    exact run_bind (run_literal "null".toList rest) _
  | some a =>
    have hread := (h a rfl).map some [] v rest blanks_nil hv hrest
    obtain ⟨c, t, rfl, hblank, -, hne⟩ := hopens a rfl v hv
    refine (peek_bind hw hblank _ _).trans ?_
    rw [if_neg hne]
    exact hread

theorem reads_optional_text (o : Option Text) :
    Reads (optional text) (Spelling.option .text o) o :=
  reads_optional o (fun t _ => reads_text t) fun t _ => opens_text t

section Arrays

variable {read : JsonReader α} {lead w t rest : Text} {c : Char} {isFirst : Bool}

-- What stands between the opening of a list, or what comes before in it, and the next part.
def Leads (isFirst : Bool) (lead : Text) : Prop :=
  match isFirst with
  | true => Blanks lead
  | false => ∃ w w', Blanks w ∧ Blanks w' ∧ lead = w ++ ',' :: w'

theorem run_nextItem (hlead : Leads isFirst lead) (hc : isJsonBlank c = false) (hclose : c ≠ ']')
    (t : Text) : (nextItem isFirst).run (lead ++ c :: t) = .ok (true, c :: t) := by
  cases isFirst with
  | true =>
    refine (peek_bind hlead hc t _).trans ?_
    rw [if_neg hclose]
    rfl
  | false =>
    obtain ⟨w, w', hw, hw', rfl⟩ := hlead
    rw [List.append_assoc]
    refine (peek_bind hw (c := ',') rfl _ _).trans ?_
    rw [if_neg (by decide), if_neg (by decide), if_pos rfl, run_bind (run_skipChar _ _)]
    refine (peek_bind hw' hc t _).trans ?_
    rw [if_neg hclose]
    rfl

theorem run_nextItem_end (hw : Blanks w) (isFirst : Bool) (t : Text) :
    (nextItem isFirst).run (w ++ ']' :: t) = .ok (false, ']' :: t) := by
  refine (peek_bind hw (c := ']') rfl t _).trans ?_
  rw [if_pos rfl]
  rfl

theorem run_item {item : Spelling} {a : α} {v : Text} (h : Reads read item a) (hopens : Opens item)
    (hv : item v) (hlead : Leads isFirst lead) (hrest : Stops rest) (next : α → JsonReader β)
    (stop : JsonReader β) :
    (nextItem isFirst >>= fun more => if more then read >>= next else stop).run
      (lead ++ (v ++ rest)) = (next a).run rest := by
  have hread := h [] v rest blanks_nil hv hrest
  obtain ⟨c, t, rfl, hblank, hclose, -⟩ := hopens v hv
  rw [List.cons_append, run_bind (run_nextItem hlead hblank hclose _), if_pos rfl]
  exact run_bind hread next

theorem run_closeArray (t : Text) : closeArray.run (']' :: t) = .ok ((), t) :=
  run_expect blanks_nil (c := ']') rfl t

theorem run_itemsFor_end (hw : Blanks w) (isFirst : Bool) (fuel : Nat) (rest : Text) :
    (itemsFor read (fuel + 1) isFirst).run (w ++ ']' :: rest) = .ok ([], rest) := by
  rw [itemsFor, run_bind (run_nextItem_end hw isFirst rest), if_neg (by decide),
    run_bind (run_closeArray rest)]
  rfl

theorem run_itemsFor {f : α → Spelling} {items : List α} (h : ∀ a ∈ items, Reads read (f a) a)
    (hopens : ∀ a ∈ items, Opens (f a)) (hitems : Items (items.map f) t) {fuel : Nat}
    (hfuel : items.length < fuel) (hlead : Leads isFirst lead) (rest : Text) :
    (itemsFor read fuel isFirst).run (lead ++ (t ++ ']' :: rest)) = .ok (items, rest) := by
  induction items generalizing t fuel isFirst lead with
  | nil => cases hitems
  | cons a items ih =>
    obtain ⟨fuel, rfl⟩ := Nat.exists_eq_succ_of_ne_zero (n := fuel) (by omega)
    rw [List.length_cons, Nat.succ_lt_succ_iff] at hfuel
    have hread := h a List.mem_cons_self
    have hopen := hopens a List.mem_cons_self
    rw [List.map_cons] at hitems
    generalize hmap : items.map f = spellings at hitems
    cases hitems with
    | @last _ v w hv hw =>
      obtain rfl : items = [] := List.map_eq_nil_iff.mp hmap
      obtain ⟨fuel, rfl⟩ := Nat.exists_eq_succ_of_ne_zero (Nat.ne_of_gt hfuel)
      have hrest : Stops (w ++ ']' :: rest) := (stops_cons (.inr (.inl rfl)) rest).blanks hw
      rw [itemsFor, List.append_assoc, run_item hread hopen hv hlead hrest,
        run_bind (run_itemsFor_end hw false fuel rest)]
      rfl
    | @cons _ _ v w w' t hv hw hw' hitems =>
      subst hmap
      have hrest : Stops (w ++ ',' :: (w' ++ (t ++ ']' :: rest))) :=
        (stops_cons (.inl rfl) _).blanks hw
      have hbetween : Leads false (w ++ ',' :: w') := ⟨w, w', hw, hw', rfl⟩
      have hmore := ih (fun b hb => h b (List.mem_cons_of_mem a hb))
        (fun b hb => hopens b (List.mem_cons_of_mem a hb)) hitems hfuel hbetween
      simp only [List.append_assoc, List.cons_append] at hmore ⊢
      rw [itemsFor, run_item hread hopen hv hlead hrest, run_bind hmore]
      rfl

theorem items_length {items : List Spelling} (hopens : ∀ item ∈ items, Opens item)
    (h : Items items t) : items.length ≤ t.length := by
  induction h with
  | @last item v w hv hw =>
    obtain ⟨c, t, rfl, -⟩ := hopens item List.mem_cons_self v hv
    simp
  | @cons item items v w w' t hv hw hw' hitems ih =>
    have hle := ih fun item hitem => hopens item (List.mem_cons_of_mem _ hitem)
    simp only [List.length_cons, List.length_append]
    omega

theorem reads_list {f : α → Spelling} {items : List α} (h : ∀ a ∈ items, Reads read (f a) a)
    (hopens : ∀ a ∈ items, Opens (f a)) : Reads (list read) (array (items.map f)) items := by
  rintro u v rest hu ⟨w, t, hw, hitems, rfl⟩ -
  simp only [List.cons_append, List.append_assoc, List.nil_append]
  refine (peek_bind hu (c := '[') rfl _ _).trans ?_
  rw [if_pos rfl, run_bind (run_skipChar _ _), run_get]
  rcases hitems with ⟨hnil, rfl⟩ | hitems
  · obtain rfl : items = [] := List.map_eq_nil_iff.mp hnil
    exact run_itemsFor_end hw true _ rest
  · have hlength := items_length (List.forall_mem_map.mpr hopens) hitems
    rw [List.length_map] at hlength
    have hlead : Leads true w := hw
    refine run_itemsFor h hopens hitems ?_ hlead rest
    simp only [List.length_append, List.length_cons]
    omega

-- Fields that are read one after the other, and what they make of a value.
inductive ReadInOrder : List (JsonField α) → List Spelling → α → α → Prop where
  | nil (a : α) : ReadInOrder [] [] a a
  | cons {field : JsonField α} {fields : List (JsonField α)} {item : Spelling}
      {items : List Spelling} {change : α → α} {a b : α} (h : Reads field.read item change)
      (hopens : Opens item) (hmore : ReadInOrder fields items (change a) b) :
      ReadInOrder (field :: fields) (item :: items) a b

theorem run_fieldsInOrder {fields : List (JsonField α)} {items : List Spelling} {a b : α}
    (h : ReadInOrder fields items a b) (hitems : Items items t) (hlead : Leads isFirst lead)
    (rest : Text) :
    (fieldsInOrder fields isFirst a).run (lead ++ (t ++ ']' :: rest)) = .ok (b, rest) := by
  induction h generalizing t isFirst lead with
  | nil a => cases hitems
  | @cons field fields item items change a b hread hopens hmore ih =>
    cases hitems with
    | @last _ v w hv hw =>
      have hrest : Stops (w ++ ']' :: rest) := (stops_cons (.inr (.inl rfl)) rest).blanks hw
      cases hmore
      rw [fieldsInOrder, List.append_assoc, run_item hread hopens hv hlead hrest, fieldsInOrder]
      exact run_bind (run_expect hw (c := ']') rfl rest) _
    | @cons _ _ v w w' t hv hw hw' hitems =>
      have hrest : Stops (w ++ ',' :: (w' ++ (t ++ ']' :: rest))) :=
        (stops_cons (.inl rfl) _).blanks hw
      have hbetween : Leads false (w ++ ',' :: w') := ⟨w, w', hw, hw', rfl⟩
      have hnext := ih hitems hbetween
      simp only [List.append_assoc, List.cons_append] at hnext ⊢
      rw [fieldsInOrder, run_item hread hopens hv hlead hrest]
      exact hnext

theorem reads_tuple {start a : α} {fields : List (JsonField α)} {items : List Spelling}
    (h : ReadInOrder fields items start a) : Reads (tuple start fields) (array items) a := by
  rintro u v rest hu ⟨w, t, hw, hitems, rfl⟩ -
  simp only [List.cons_append, List.append_assoc, List.nil_append]
  refine (peek_bind hu (c := '[') rfl _ _).trans ?_
  rw [if_pos rfl, run_bind (run_skipChar _ _)]
  rcases hitems with ⟨rfl, rfl⟩ | hitems
  · cases h
    exact run_bind (run_expect hw (c := ']') rfl rest) _
  · have hlead : Leads true w := hw
    exact run_fieldsInOrder h hitems hlead rest

end Arrays

-- A field makes a record that has some fields already into the one that has this field as well.
def BuildsField (built : (Text → Bool) → α) (field : JsonField α) (entry : String × Spelling) : Prop :=
  field.name = entry.1.toList ∧ ∃ change, Reads field.read entry.2 change ∧
    ∀ there : Text → Bool, there field.name = false →
      change (built there) = built fun name => name == field.name || there name

-- What a record is when the fields with some names have been read: the start when none has, and each
-- field adds its own, whatever the order. Unknown names do not matter.
structure Builds (fields : List (JsonField α)) (known : List (String × Spelling)) (start : α)
    (built : (Text → Bool) → α) : Prop where
  start : built (fun _ => false) = start
  fields : List.Forall₂ (BuildsField built) fields known
  congr : ∀ there there' : Text → Bool,
    (∀ entry ∈ known, there entry.1.toList = there' entry.1.toList) → built there = built there'

theorem buildsField_of {built : (Text → Bool) → α} {name : String} {read : JsonReader β}
    {put : β → α → α} {need : FieldNeed} {value : Spelling} {b : β} (h : Reads read value b)
    (hput : ∀ there, put b (built there) = built fun other => other == name.toList || there other) :
    BuildsField built (.of name read put need) (name, value) :=
  ⟨rfl, put b, h.map put, fun there _ => hput there⟩

theorem toList_beq (s t : String) : (s.toList == t.toList) = decide (s = t) := by
  rw [Bool.eq_iff_iff, beq_iff_eq, decide_eq_true_eq, String.toList_inj]

theorem told_nil (name : Text) : told [] name = any := rfl

theorem told_cons (entry : String × Spelling) (known : List (String × Spelling)) (name : String) :
    told (entry :: known) name.toList = if entry.1 = name then entry.2 else told known name.toList := by
  rw [told, List.find?_cons, toList_beq]
  by_cases h : entry.1 = name
  · rw [decide_eq_true h, if_pos h]
  · rw [decide_eq_false h, if_neg h]
    rfl

section Records

variable {fields : List (JsonField α)} {known : List (String × Spelling)} {start : α}
  {built : (Text → Bool) → α} {lead m w t rest name : Text} {names seen : List Text} {fuel : Nat}

theorem run_nextName {isFirst : Bool} {q : Text} (hlead : Leads isFirst lead)
    (hname : Symbols true name q) (t : Text) :
    (nextName isFirst).run (lead ++ '"' :: (q ++ '"' :: t)) = .ok (some name, t) := by
  have hread : (some <$> quotedText true).run ('"' :: (q ++ '"' :: t)) = .ok (some name, t) := by
    rw [StateT.run_map, run_quotedText hname]
    rfl
  cases isFirst with
  | true =>
    refine (peek_bind hlead (c := '"') rfl _ _).trans ?_
    rw [if_neg (by decide)]
    exact hread
  | false =>
    obtain ⟨w, w', hw, hw', rfl⟩ := hlead
    rw [List.append_assoc]
    refine (peek_bind hw (c := ',') rfl _ _).trans ?_
    rw [if_neg (by decide)]
    simp only [Bool.false_eq_true, if_false, if_true]
    rw [run_bind (run_skipChar _ _)]
    refine (peek_bind hw' (c := '"') rfl _ _).trans ?_
    rw [if_pos rfl]
    exact hread

theorem once_of_nodup (h : names.Nodup) (known : List (String × Spelling)) : Once known names :=
  fun _ _ => List.nodup_iff_count.mp h _

theorem find?_fields (h : List.Forall₂ (BuildsField built) fields known) (name : Text) :
    (fields.find? (fun f => f.name == name) = none ∧
      (∀ entry ∈ known, entry.1.toList ≠ name) ∧ told known name = any) ∨
    ∃ field ∈ fields, fields.find? (fun f => f.name == name) = some field ∧ field.name = name ∧
      ∃ entry ∈ known, told known name = entry.2 ∧ BuildsField built field entry := by
  induction h with
  | nil => exact .inl ⟨rfl, fun entry hentry => (List.not_mem_nil hentry).elim, rfl⟩
  | @cons field entry fields known hfield hmore ih =>
    obtain ⟨hname, hchange⟩ := hfield
    by_cases hthis : field.name = name
    · refine .inr ⟨field, List.mem_cons_self, ?_, hthis, entry, List.mem_cons_self, ?_, hname, hchange⟩
      · rw [List.find?_cons_of_pos (by simpa using hthis)]
      · rw [told, List.find?_cons_of_pos (by simpa using hname.symm.trans hthis)]
    · have hother : entry.1.toList ≠ name := fun heq => hthis (hname.trans heq)
      have hfind : (field :: fields).find? (fun f => f.name == name) =
          fields.find? fun f => f.name == name := List.find?_cons_of_neg (by simpa using hthis)
      have htold : told (entry :: known) name = told known name := by
        rw [told, List.find?_cons_of_neg (by simpa using hother)]
        rfl
      rw [hfind, htold]
      rcases ih with ⟨hnone, hunknown, hany⟩ | ⟨f, hf, hfound, hfname, e, he, hspelled, hbuilds⟩
      · exact .inl ⟨hnone, List.forall_mem_cons.mpr ⟨hother, hunknown⟩, hany⟩
      · exact .inr ⟨f, List.mem_cons_of_mem _ hf, hfound, hfname, e, List.mem_cons_of_mem _ he,
          hspelled, hbuilds⟩

-- A member is read or passed over; its field must not have been there.
theorem run_member (h : Builds fields known start built) (hm : Member (told known name) name m)
    (hnew : ∀ entry ∈ known, entry.1.toList = name → name ∉ seen) (hlead : Leads seen.isEmpty lead)
    (hrest : Stops rest) (fuel : Nat) :
    ∃ w, Blanks w ∧ (fieldsByNameFor fields (fuel + 1) seen (built seen.contains)).run
      (lead ++ (m ++ rest)) =
        (fieldsByNameFor fields fuel (name :: seen) (built (name :: seen).contains)).run (w ++ rest) := by
  obtain ⟨q, w, w', v, w'', hq, hw, hw', hv, hw'', rfl⟩ := hm
  refine ⟨w'', hw'', ?_⟩
  have hcontains : (name :: seen).contains = fun other => other == name || seen.contains other := by
    funext other
    rw [List.contains_cons]
  simp only [List.cons_append, List.append_assoc]
  rw [fieldsByNameFor, run_bind (run_nextName hlead hq _), hcontains]
  rcases find?_fields h.fields name with ⟨hnone, hunknown, hany⟩ |
    ⟨field, -, hfound, hname, entry, hentry, hspelled, hknown, change, hread, hchange⟩
  · simp only [hnone]
    rw [run_bind (run_expect hw (c := ':') rfl _),
      run_bind (reads_skipValue w' v _ hw' (hany ▸ hv) (hrest.blanks hw''))]
    congr 2
    refine h.congr _ _ fun entry hentry => ?_
    rw [beq_eq_false_iff_ne.mpr (hunknown entry hentry), Bool.false_or]
  · have hmissing : seen.contains name = false := by
      simpa using hnew entry hentry (hknown.symm.trans hname)
    simp only [hfound, hmissing]
    rw [if_neg Bool.false_ne_true, run_bind (run_expect hw (c := ':') rfl _),
      run_bind (hread w' v _ hw' (hspelled ▸ hv) (hrest.blanks hw'')),
      hchange _ (hname ▸ hmissing), hname]

theorem run_fieldsByNameFor_end {value : α}
    (hneed : ∀ f ∈ fields, f.need.optionalInObject = true ∨ f.name ∈ seen) (hw : Blanks w)
    (fuel : Nat) (rest : Text) :
    (fieldsByNameFor fields (fuel + 1) seen value).run (w ++ '}' :: rest) = .ok (value, rest) := by
  have hall : (fields.all fun f => f.need.optionalInObject || seen.contains f.name) = true := by
    simpa using hneed
  have hnext : (nextName seen.isEmpty).run (w ++ '}' :: rest) = .ok (none, '}' :: rest) := by
    refine (peek_bind hw (c := '}') rfl rest _).trans ?_
    rw [if_pos rfl]
    rfl
  rw [fieldsByNameFor, run_bind hnext]
  simp only [hall, if_true]
  exact run_bind (run_expect blanks_nil (c := '}') rfl rest) _

theorem not_mem_of_once (honce : ∀ entry ∈ known, (name :: names ++ seen).count entry.1.toList ≤ 1) :
    ∀ entry ∈ known, entry.1.toList = name → name ∉ seen := by
  rintro entry hentry rfl hmem
  have hcount := honce entry hentry
  have hpos := List.count_pos_iff.mpr hmem
  rw [List.cons_append, List.count_cons_self, List.count_append] at hcount
  omega

theorem run_fieldsByNameFor (h : Builds fields known start built)
    (hmembers : Members (told known) names t)
    (honce : ∀ entry ∈ known, (names ++ seen).count entry.1.toList ≤ 1)
    (hneed : ∀ f ∈ fields, f.need.optionalInObject = true ∨ f.name ∈ names ++ seen)
    (hfuel : names.length < fuel) (hlead : Leads seen.isEmpty lead) (rest : Text) :
    (fieldsByNameFor fields fuel seen (built seen.contains)).run (lead ++ (t ++ '}' :: rest)) =
      .ok (built (names ++ seen).contains, rest) := by
  induction hmembers generalizing seen lead fuel with
  | @last name m hm =>
    obtain ⟨fuel, rfl⟩ := Nat.exists_eq_succ_of_ne_zero (Nat.ne_of_gt (Nat.zero_lt_of_lt hfuel))
    obtain ⟨w, hw, hrun⟩ := run_member h hm (not_mem_of_once honce) hlead
      (stops_cons (.inr (.inr rfl)) rest) fuel
    rw [hrun]
    obtain ⟨fuel, rfl⟩ := Nat.exists_eq_succ_of_ne_zero (Nat.ne_of_gt (Nat.lt_of_succ_lt_succ hfuel))
    exact run_fieldsByNameFor_end hneed hw fuel rest
  | @cons name m w t names hm hw hmembers ih =>
    obtain ⟨fuel, rfl⟩ := Nat.exists_eq_succ_of_ne_zero (Nat.ne_of_gt (Nat.zero_lt_of_lt hfuel))
    obtain ⟨w', hw', hrun⟩ := run_member h hm (not_mem_of_once honce) hlead
      (stops_cons (.inl rfl) (w ++ (t ++ '}' :: rest))) fuel
    have hperm : (names ++ name :: seen).Perm (name :: names ++ seen) := List.perm_middle
    have hcontains : (name :: names ++ seen).contains = (names ++ name :: seen).contains := by
      funext other
      rw [Bool.eq_iff_iff, List.contains_iff_mem, List.contains_iff_mem, hperm.mem_iff]
    have hbetween : Leads (name :: seen).isEmpty (w' ++ ',' :: w) := ⟨w', w, hw', hw, rfl⟩
    have hmore := ih
      (fun entry hentry => Nat.le_trans (Nat.le_of_eq (hperm.count_eq _)) (honce entry hentry))
      (fun f hf => (hneed f hf).imp_right hperm.mem_iff.mpr) (Nat.lt_of_succ_lt_succ hfuel) hbetween
    simp only [List.append_assoc, List.cons_append] at hmore hrun ⊢
    rw [hrun, hmore, ← List.cons_append, hcontains]

theorem members_length {value : Text → Spelling} (h : Members value names t) :
    names.length ≤ t.length := by
  induction h with
  | last hm =>
    obtain ⟨q, w, w', v, w'', -, -, -, -, -, rfl⟩ := hm
    simp
  | cons hm hw hmembers ih =>
    simp only [List.length_cons, List.length_append]
    omega

-- A record is made of the known members that are there, in whatever order.
theorem reads_record (h : Builds fields known start built) (honce : Once known names)
    (hneed : ∀ f ∈ fields, f.need.optionalInObject = true ∨ f.name ∈ names) :
    Reads (record start fields) (object (told known) names) (built names.contains) := by
  rintro u v rest hu ⟨w, t, hw, hmembers, rfl⟩ -
  have hstart : built [].contains = start := h.start
  simp only [List.cons_append, List.append_assoc, List.nil_append]
  refine (peek_bind hu (c := '{') rfl _ _).trans ?_
  rw [if_neg (by decide), if_pos rfl, run_bind (run_skipChar _ _), run_get, ← hstart]
  rcases hmembers with ⟨rfl, rfl⟩ | hmembers
  · exact run_fieldsByNameFor_end hneed hw _ rest
  · have hlength := members_length hmembers
    have hlead : Leads ([] : List Text).isEmpty w := hw
    have hfuel : names.length < (w ++ (t ++ '}' :: rest)).length + 1 := by
      simp only [List.length_append, List.length_cons]
      omega
    have hrun := run_fieldsByNameFor h hmembers (by rwa [List.append_nil])
      (by rwa [List.append_nil]) hfuel hlead rest
    rwa [List.append_nil] at hrun

end Records

section Choices

variable {choices : Text → Option (JsonChoice α)} {name : Text} {a : α}

theorem reads_choice_plain (h : choices name = some (.plain a)) :
    Reads (choice choices) (Spelling.text name) a := by
  rintro w v rest hw ⟨q, hq, rfl⟩ -
  simp only [List.cons_append, List.append_assoc, List.nil_append]
  refine (peek_bind hw (c := '"') rfl _ _).trans ?_
  rw [if_pos rfl]
  exact run_bind (run_parsed h blanks_nil hq rest) _

-- The name of the choice is the one member.
theorem reads_choice_payload {read : JsonReader α} {value : Spelling}
    (h : choices name = some (.payload read)) (hread : Reads read value a) :
    Reads (choice choices) (object (fun _ => value) [name]) a := by
  rintro u v rest hu ⟨w, t, hw, hmembers, rfl⟩ -
  obtain ⟨q, x, y, v, z, hq, hx, hy, hv, hz, rfl⟩ : Member value name t := by
    rcases hmembers with ⟨hnil, -⟩ | hmembers
    · cases hnil
    · cases hmembers with
      | last hm => exact hm
      | cons hm hw hmore => cases hmore
  have hpayload : (payload (.payload read)).run (y ++ (v ++ (z ++ '}' :: rest))) =
      .ok (a, z ++ '}' :: rest) :=
    hread y v _ hy hv ((stops_cons (.inr (.inr rfl)) rest).blanks hz)
  simp only [List.cons_append, List.append_assoc, List.nil_append]
  refine (peek_bind hu (c := '{') rfl _ _).trans ?_
  rw [if_neg (by decide), if_pos rfl, run_bind (run_skipChar _ _)]
  refine (run_bind (run_parsed h hw hq _) _).trans ?_
  rw [run_bind (run_expect hx (c := ':') rfl _), run_bind hpayload,
    run_bind (run_expect hz (c := '}') rfl rest)]
  rfl

end Choices

end ShellTranscript.JsonReader
