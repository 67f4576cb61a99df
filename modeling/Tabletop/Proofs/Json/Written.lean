import Mathlib.Data.List.Forall2
import Tabletop.Json.Encode
import Tabletop.Json.Decode
import Tabletop.Proofs.Text.Digits

/-! Written JSON is read back: strings with whatever characters, whole numbers, and objects of fields that are read back. -/
namespace Tabletop.Json

/-- What may stand behind a written value. -/
def AtEnd (rest : List Char) : Prop := ∀ c ∈ rest.head?, c = ',' ∨ c = '\x7d'

/-- The text is read as the value, whatever may stand behind it. -/
def Reads (text : String) (v : Json) : Prop :=
  ∀ fuel rest, AtEnd rest → value? (fuel + 1) (text.toList ++ rest) = some (v, rest)

private theorem skipGap_cons {c : Char} (h : isGap c = false) (rest : List Char) : skipGap (c :: rest) = c :: rest :=
  List.dropWhile_cons_of_neg (by simp [h])

/-! Strings -/

private theorem hex4?_hexDigit {n : Nat} (h : n < 0x20) :
    hex4? '0' '0' (hexDigit (n / 16)) (hexDigit (n % 16)) = some n := by
  have hall : ∀ n : Fin 32, hex4? '0' '0' (hexDigit (n / 16)) (hexDigit (n % 16)) = some n.val := by decide +kernel
  exact hall ⟨n, h⟩

/-- An escaped character is read as itself. -/
theorem stringUnits_escape (c : Char) (rest : List Char) :
    stringUnits 0 (escape c ++ rest) = consUnit (some c) (stringUnits 0 rest) := by
  by_cases hshort : c ∈ ['"', '\\', '\x08', '\x0c', '\n', '\r', '\t']
  · have hall : ∀ c ∈ ['"', '\\', '\x08', '\x0c', '\n', '\r', '\t'],
        stringUnits 0 (escape c ++ rest) = consUnit (some c) (stringUnits 0 rest) := by
      simp only [List.forall_mem_cons]
      exact ⟨rfl, rfl, rfl, rfl, rfl, rfl, rfl, nofun⟩
    exact hall c hshort
  · simp only [List.mem_cons, List.not_mem_nil, or_false, not_or] at hshort
    obtain ⟨hquote, hslash, hb, hf, hn, hr, ht⟩ := hshort
    rw [escape, if_neg (not_or.2 ⟨hquote, hslash⟩), if_neg hb, if_neg hf, if_neg hn, if_neg hr, if_neg ht]
    split
    · rename_i hcontrol
      have hcode := hex4?_hexDigit hcontrol
      have hhigh : isHighSurrogate c.toNat = false := by simp [isHighSurrogate]; omega
      have hlow : isLowSurrogate c.toNat = false := by simp [isLowSurrogate]; omega
      simp only [List.cons_append, List.nil_append, stringUnits, hcode, hhigh, hlow, Char.ofNat_toNat]
      rfl
    · rename_i hprinted
      rw [List.singleton_append, stringUnits.eq_def]
      simp [hprinted]

private theorem stringBody?_written (s : String) (rest : List Char) :
    stringBody? (s.toList.flatMap escape ++ '"' :: rest) = some (some s, rest) := by
  have hunits (cs : List Char) : stringUnits 0 (cs.flatMap escape ++ '"' :: rest) = some (cs.map some, rest) := by
    induction cs with
    | nil => rfl
    | cons c cs ih =>
      rw [List.flatMap_cons, List.append_assoc, stringUnits_escape, ih]
      rfl
  have hall : (s.toList.map some).mapM id = some s.toList := by
    induction s.toList with
    | nil => rfl
    | cons c cs ih => rw [List.map_cons, List.mapM_cons, ih]; rfl
  rw [stringBody?, hunits, Option.map_some]
  change some (((s.toList.map some).mapM id).map String.ofList, rest) = _
  rw [hall, Option.map_some, String.ofList_toList]

private theorem toList_stringText (s : String) (rest : List Char) :
    (stringText s).toList ++ rest = '"' :: (s.toList.flatMap escape ++ '"' :: rest) := by
  rw [stringText, String.toList_ofList]
  simp

theorem reads_string (s : String) : Reads (stringText s) (.string (some s)) := by
  intro fuel rest _
  rw [toList_stringText, value?, skipGap_cons rfl]
  simp only [stringBody?_written, Option.map_some]

/-! Whole numbers -/

/-- Only zero starts with a zero. -/
theorem head?_toDigits {n : Nat} (h : 0 < n) : (Nat.toDigits 10 n).head? ≠ some '0' := by
  induction n using Nat.strongRecOn with
  | ind n ih =>
    by_cases hone : n < 10
    · have hall : ∀ n : Fin 10, 0 < n.val → Nat.digitChar n ≠ '0' := by decide
      rw [Nat.toDigits_of_lt_base hone]
      exact fun he => hall ⟨n, hone⟩ h (Option.some.inj he)
    · have hfront := ih (n / 10) (by omega) (by omega)
      rw [Nat.toDigits_of_base_le (by decide) (by omega), List.head?_append]
      obtain ⟨d, ds, hds⟩ := List.exists_cons_of_ne_nil (Nat.toDigits_ne_nil (n := n / 10) (b := 10))
      rw [hds] at hfront ⊢
      exact hfront

private theorem head?_toString_natAbs {i : Int} (h : (toString i.natAbs).toList.head? = some '0') :
    (toString i.natAbs).toList.length = 1 := by
  rw [Nat.toString_eq_ofList_toDigits, String.toList_ofList] at h ⊢
  rcases Nat.eq_zero_or_pos i.natAbs with hzero | hpos
  · rw [hzero]
    rfl
  · exact absurd h (head?_toDigits hpos)

/-- A whole number as it is written. -/
def wholeText (x : Int64) : NumberText :=
  ⟨decide (x.toInt < 0), (toString x.toInt.natAbs).toList, none, none⟩

private theorem takeDigits_written (n : Nat) {rest : List Char} (h : AtEnd rest) :
    takeDigits ((toString n).toList ++ rest) = ((toString n).toList, rest) := by
  have hdigits : ∀ c ∈ (toString n).toList, Text.isDigit c = true := fun c => Text.isDigit_of_mem_toString
  have hnone : rest.takeWhile Text.isDigit = [] ∧ rest.dropWhile Text.isDigit = rest := by
    cases rest with
    | nil => exact ⟨rfl, rfl⟩
    | cons c rest => rcases h c rfl with rfl | rfl <;> exact ⟨rfl, rfl⟩
  rw [takeDigits, List.takeWhile_append_of_pos hdigits, List.dropWhile_append_of_pos hdigits, hnone.1, hnone.2,
    List.append_nil]

/-- Behind a whole number stands neither a fraction nor an exponent. -/
theorem fraction?_atEnd {rest : List Char} (h : AtEnd rest) :
    fraction? rest = some (none, rest) ∧ exponent? rest = some (none, rest) := by
  cases rest with
  | nil => exact ⟨rfl, rfl⟩
  | cons c rest => rcases h c rfl with rfl | rfl <;> exact ⟨rfl, rfl⟩

private theorem number?_digits (negative : Bool) {digits rest : List Char}
    (hdigits : takeDigits (digits ++ rest) = (digits, rest))
    (hnil : digits ≠ []) (hminus : digits.head? ≠ some '-') (hzero : digits.head? = some '0' → digits.length = 1)
    (hrest : AtEnd rest) :
    number? ((if negative then ['-'] else []) ++ digits ++ rest) = some (⟨negative, digits, none, none⟩, rest) := by
  obtain ⟨hfraction, hexponent⟩ := fraction?_atEnd hrest
  cases negative with
  | true =>
    simp [number?, hdigits, hnil, hfraction, hexponent]
    exact hzero
  | false =>
    obtain ⟨d, ds, rfl⟩ := List.exists_cons_of_ne_nil hnil
    have hd : d ≠ '-' := fun he => hminus (congrArg some he)
    rw [List.cons_append] at hdigits
    simp [number?, hd, hdigits, hfraction, hexponent]
    simpa using hzero

private theorem number?_written (x : Int64) {rest : List Char} (h : AtEnd rest) :
    number? ((numberText (.whole x)).toList ++ rest) = some (wholeText x, rest) := by
  have hminus : (toString x.toInt.natAbs).toList.head? ≠ some '-' := fun he =>
    absurd (Text.isDigit_of_mem_toString (List.mem_of_head? he)) (by decide)
  have hnumber := number?_digits (decide (x.toInt < 0)) (takeDigits_written x.toInt.natAbs h) (Text.toString_ne_nil _) hminus
    head?_toString_natAbs h
  simp only [decide_eq_true_eq] at hnumber
  rw [numberText, Text.toList_toString_int, Text.signOf]
  exact hnumber

theorem toNumber?_wholeText (x : Int64) : (wholeText x).toNumber? = some (.whole x) := by
  have hsize : Text.natOfDigits (toString x.toInt.natAbs).toList = x.toInt.natAbs := by
    have hread := Text.readNat?_toString x.toInt.natAbs
    rw [Text.readNat?] at hread
    split at hread
    · exact Option.some.inj hread
    · cases hread
  have hint : (wholeText x).toInt? = some x.toInt := by
    simp only [NumberText.toInt?, wholeText, hsize, Option.isSome_none, Bool.or_self, Bool.false_eq_true, if_false,
      decide_eq_true_eq]
    rcases Decidable.em (x.toInt < 0) with hneg | hpos
    · rw [if_pos hneg, if_neg (Int.natAbs_ne_zero.2 (Int.ne_of_lt hneg)), Int.ofNat_natAbs_of_nonpos (Int.le_of_lt hneg),
        Int.neg_neg]
    · rw [if_neg hpos, Int.natAbs_of_nonneg (Int.not_lt.1 hpos)]
  rw [NumberText.toNumber?, hint, Option.bind_some, fit?_toInt]

private theorem value?_of_sign {c : Char} (h : Text.isDigit c = true ∨ c = '-') (fuel : Nat) (cs : List Char) :
    value? (fuel + 1) (c :: cs) = (number? (c :: cs)).map fun (n, rest) => (number n, rest) := by
  have hother : c ∉ ['n', 't', 'f', '"', '[', '\x7b', ' ', '\n', '\t', '\r'] := by
    intro hc
    have hall : ['n', 't', 'f', '"', '[', '\x7b', ' ', '\n', '\t', '\r'].all
        (fun d => !(Text.isDigit d || d == '-')) = true := by decide
    have hnot := List.all_eq_true.1 hall c hc
    simp only [Bool.not_eq_true', Bool.or_eq_false_iff, beq_eq_false_iff_ne] at hnot
    exact h.elim (Bool.eq_false_iff.1 hnot.1) hnot.2
  simp only [List.mem_cons, List.not_mem_nil, or_false, not_or] at hother
  have hgap : isGap c = false := by simp [isGap, hother]
  rw [value?, skipGap_cons hgap]
  split <;> simp_all

theorem reads_whole (x : Int64) : Reads (numberText (.whole x)) (.number (wholeText x)) := by
  intro fuel rest hrest
  obtain ⟨c, cs, hcs, hc⟩ := Text.exists_cons_toString x.toInt
  have hnumber := number?_written x hrest
  rw [numberText, hcs] at hnumber ⊢
  rw [List.cons_append] at hnumber ⊢
  rw [value?_of_sign (hc.imp_right And.left), hnumber]
  rfl

/-! Objects -/

/-- A field as it is written. -/
def fieldText (field : String × String) : String := stringText field.1 ++ ":" ++ field.2

/-- A field is written with the text of a value. -/
def WritesField (field : String × String) (read : Option String × Json) : Prop :=
  read.1 = some field.1 ∧ Reads field.2 read.2

variable {field : String × String} {read : Option String × Json}

private theorem atEnd_cons {c : Char} (h : c = ',' ∨ c = '\x7d') (rest : List Char) : AtEnd (c :: rest) := by
  rintro _ ⟨⟩
  exact h

private theorem toList_fieldText (field : String × String) (rest : List Char) :
    (fieldText field).toList ++ rest =
      '"' :: (field.1.toList.flatMap escape ++ '"' :: (':' :: (field.2.toList ++ rest))) := by
  rw [fieldText, String.toList_append, String.toList_append, List.append_assoc, List.append_assoc, toList_stringText]
  rfl

private theorem fields?_last (h : WritesField field read) (fuel : Nat) (rest : List Char) :
    fields? (fuel + 2) ((fieldText field).toList ++ '\x7d' :: rest) = some ([read], rest) := by
  have hvalue := h.2 fuel _ (atEnd_cons (.inr rfl) rest)
  have hread : (some field.1, read.2) = read := Prod.ext h.1.symm rfl
  rw [toList_fieldText, fields?, skipGap_cons rfl]
  simp only [stringBody?_written, skipGap_cons (c := ':') rfl, hvalue, skipGap_cons (c := '\x7d') rfl, hread]

private theorem fields?_cons (h : WritesField field read) (fuel : Nat) (rest : List Char) :
    fields? (fuel + 2) ((fieldText field).toList ++ ',' :: rest) =
      (fields? (fuel + 1) rest).map fun (fields, rest) => (read :: fields, rest) := by
  have hvalue := h.2 fuel _ (atEnd_cons (.inl rfl) rest)
  have hread : (some field.1, read.2) = read := Prod.ext h.1.symm rfl
  rw [toList_fieldText, fields?, skipGap_cons rfl]
  simp only [stringBody?_written, skipGap_cons (c := ':') rfl, hvalue, skipGap_cons (c := ',') rfl, hread]

/-- Fields are read one by one. -/
theorem fields?_written {fields : List (String × String)} {reads : List (Option String × Json)}
    (h : List.Forall₂ WritesField fields reads) (hne : fields ≠ []) {fuel : Nat} (hfuel : fields.length < fuel)
    (rest : List Char) :
    fields? fuel ([','].intercalate (fields.map fun f => (fieldText f).toList) ++ '\x7d' :: rest) = some (reads, rest) := by
  induction h generalizing fuel with
  | nil => exact absurd rfl hne
  | @cons field read fields reads hfield hfields ih =>
    obtain ⟨fuel, rfl⟩ : ∃ n, fuel = n + 2 := ⟨fuel - 2, by simp at hfuel; omega⟩
    cases hfields with
    | nil =>
      rw [List.map_cons, List.map_nil, List.intercalate_singleton]
      exact fields?_last hfield fuel rest
    | cons =>
      have hrest := ih (List.cons_ne_nil _ _) (Nat.lt_of_succ_lt_succ hfuel)
      rw [List.map_cons, List.intercalate_cons_of_ne_nil (by simp), List.append_assoc, List.append_assoc,
        List.singleton_append, fields?_cons hfield, hrest]
      rfl

private theorem length_le_length_intercalate (sep : Char) {parts : List (List Char)} (h : ∀ part ∈ parts, part ≠ []) :
    parts.length ≤ ([sep].intercalate parts).length := by
  induction parts with
  | nil => exact Nat.le_refl _
  | cons part parts ih =>
    obtain ⟨hpart, hparts⟩ := List.forall_mem_cons.1 h
    have hlength := List.length_pos_iff.2 hpart
    cases parts with
    | nil =>
      rw [List.intercalate_singleton]
      exact hlength
    | cons next parts =>
      have hrest := ih hparts
      rw [List.intercalate_cons_cons, List.length_append, List.length_append, List.length_cons]
      omega

private theorem toList_objectText (fields : List (String × String)) :
    (objectText fields).toList = '\x7b' :: ([','].intercalate (fields.map fun f => (fieldText f).toList) ++ ['\x7d']) := by
  rw [objectText, String.toList_append, String.toList_append, String.toList_intercalate, List.map_map]
  rfl

private theorem exists_quote_fields {fields : List (String × String)} (hne : fields ≠ []) (rest : List Char) :
    ∃ cs, [','].intercalate (fields.map fun f => (fieldText f).toList) ++ rest = '"' :: cs := by
  obtain ⟨field, fields, rfl⟩ := List.exists_cons_of_ne_nil hne
  cases fields with
  | nil =>
    rw [List.map_cons, List.map_nil, List.intercalate_singleton, toList_fieldText]
    exact ⟨_, rfl⟩
  | cons =>
    rw [List.map_cons, List.intercalate_cons_of_ne_nil (by simp), List.append_assoc, List.append_assoc, toList_fieldText]
    exact ⟨_, rfl⟩

private theorem value?_fields {fuel : Nat} {cs rest : List Char} {reads : List (Option String × Json)}
    (h : fields? fuel ('"' :: cs) = some (reads, rest)) :
    value? (fuel + 1) ('\x7b' :: '"' :: cs) = some (.object reads, rest) := by
  rw [value?, skipGap_cons rfl]
  simp only [skipGap_cons (c := '"') rfl]
  change (fields? fuel ('"' :: cs)).map _ = _
  rw [h]
  rfl

/-- The text is long enough for its fields. -/
theorem length_fields_le (fields : List (String × String)) : fields.length ≤ (objectText fields).toList.length := by
  have hparts : ∀ part ∈ fields.map fun f => (fieldText f).toList, part ≠ [] := by
    intro part hpart
    obtain ⟨field, -, rfl⟩ := List.mem_map.1 hpart
    intro hnil
    have htext := toList_fieldText field []
    rw [hnil] at htext
    cases htext
  have hlength := length_le_length_intercalate ',' hparts
  rw [List.length_map] at hlength
  rw [toList_objectText, List.length_cons, List.length_append]
  omega

/-- A written object is read back, field by field. -/
theorem parse?_objectText {fields : List (String × String)} {reads : List (Option String × Json)}
    (h : List.Forall₂ WritesField fields reads) : parse? (objectText fields) = some (.object reads) := by
  have hvalue :
      value? (2 * (objectText fields).toList.length + 2) (objectText fields).toList = some (.object reads, []) := by
    rcases Decidable.em (fields = []) with rfl | hne
    · cases h
      rfl
    · have hlength := length_fields_le fields
      have hfuel : fields.length < 2 * (objectText fields).toList.length + 1 := by omega
      have hfields := fields?_written h hne hfuel []
      obtain ⟨cs, hcs⟩ := exists_quote_fields hne ['\x7d']
      rw [hcs] at hfields
      have hobject := value?_fields hfields
      rwa [← hcs, ← toList_objectText] at hobject
  rw [parse?]
  simp only [hvalue]
  rfl

end Tabletop.Json
