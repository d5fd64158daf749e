import Draftboard.Json.Printer
import Draftboard.Json.Reader
import Draftboard.Proofs.Decimal
/-!
# JSON text read back

The text that is printed for a value is read as that value, if the value holds no float, its whole
numbers fit 64 bits and it is not nested too deep. That a value is read is said for any text that
may go on after it, so that the items of a list and the fields of an object follow by one induction.
-/

namespace Draftboard.Json

open Decimal

theorem exists_fuel {n fuel : Nat} (h : n < fuel) : ∃ m, fuel = m + 1 ∧ n ≤ m :=
  ⟨fuel - 1, by omega, by omega⟩

/-! ## Strings -/

theorem hexValue_hexDigit : ∀ n < 16, hexValue (hexDigit n) = some n := by decide

theorem unicodeEscape_control {c : Char} (h : c.toNat < 0x20) (rest : List Char) :
    unicodeEscape ('0' :: '0' :: hexDigit (c.toNat / 16) :: hexDigit (c.toNat % 16) :: rest) =
      some (some c, rest) := by
  have hzero : hexValue '0' = some 0 := rfl
  have hnumber : 4096 * 0 + 256 * 0 + 16 * (c.toNat / 16) + c.toNat % 16 = c.toNat := by omega
  have hhigh : isHighSurrogate c.toNat = false := by
    simp only [isHighSurrogate, Bool.and_eq_false_iff, decide_eq_false_iff_not]
    omega
  have hlow : isLowSurrogate c.toNat = false := by
    simp only [isLowSurrogate, Bool.and_eq_false_iff, decide_eq_false_iff_not]
    omega
  simp only [unicodeEscape, unit16, hzero, hexValue_hexDigit _ (show c.toNat / 16 < 16 by omega),
    hexValue_hexDigit _ (show c.toNat % 16 < 16 by omega), Option.bind_eq_bind, Option.bind_some,
    hnumber, hhigh, hlow, Bool.false_eq_true, if_false, Char.ofNat_toNat]

theorem stringBody_escaped (fuel : Nat) (c : Char) (acc rest : List Char) :
    stringBody (fuel + 1) (some acc) (escaped c ++ rest) = stringBody fuel (some (c :: acc)) rest := by
  unfold escaped
  split
  all_goals try rfl
  case h_8 hquote hslash _ _ _ _ _ =>
    split
    case isTrue hcontrol =>
      simp only [List.cons_append, List.nil_append, stringBody, unicodeEscape_control hcontrol]
      rfl
    case isFalse hplain =>
      rw [List.singleton_append, stringBody]
      · exact if_neg (not_or.2 ⟨hplain, hslash⟩)
      · exact hquote
      · exact fun _ h => absurd h hslash
      · exact fun _ _ h => absurd h hslash

theorem stringBody_flatMap (text : List Char) {fuel : Nat} (acc rest : List Char)
    (hfuel : text.length < fuel) :
    stringBody fuel (some acc) (text.flatMap escaped ++ '"' :: rest) =
      some (some (acc.reverse ++ text), rest) := by
  induction text generalizing fuel acc with
  | nil =>
    obtain ⟨fuel, rfl, -⟩ := exists_fuel hfuel
    simp [stringBody]
  | cons c text ih =>
    obtain ⟨fuel, rfl, hle⟩ := exists_fuel hfuel
    rw [List.flatMap_cons, List.append_assoc, stringBody_escaped, ih (c :: acc) hle]
    simp

theorem escaped_ne_nil (c : Char) : escaped c ≠ [] := by
  unfold escaped
  split
  all_goals try simp
  split <;> simp

theorem length_le_flatMap_escaped (text : List Char) :
    text.length ≤ (text.flatMap escaped).length := by
  induction text with
  | nil => simp
  | cons c text ih =>
    have := List.length_pos_iff.2 (escaped_ne_nil c)
    rw [List.flatMap_cons, List.length_append, List.length_cons]
    omega

theorem toList_quoted (s : String) (rest : List Char) :
    (quoted s).toList ++ rest = '"' :: (s.toList.flatMap escaped ++ '"' :: rest) := by
  simp [quoted]

theorem stringText_quoted (s : String) (rest : List Char) :
    stringText (s.toList.flatMap escaped ++ '"' :: rest) = some (some s, rest) := by
  have hlength := length_le_flatMap_escaped s.toList
  rw [stringText, stringBody_flatMap _ _ _ (by simp only [List.length_append]; omega)]
  simp

/-! ## Numbers -/

/-- A text that goes on after a value: with a comma, a closing bracket, or not at all. -/
def EndsValue (rest : List Char) : Prop := ∀ c ∈ rest.head?, c = ',' ∨ c = ']' ∨ c = '\x7d'

theorem endsValue_cons {c : Char} (h : c = ',' ∨ c = ']' ∨ c = '\x7d') (rest : List Char) :
    EndsValue (c :: rest) := by
  simpa [EndsValue] using h

theorem EndsValue.endsDigits {rest : List Char} (h : EndsValue rest) : EndsDigits rest := by
  intro c hc
  rcases h c hc with rfl | rfl | rfl <;> decide

theorem EndsValue.fractionDigits {rest : List Char} (h : EndsValue rest) :
    fractionDigits rest = some ([], rest) := by
  unfold Json.fractionDigits
  split
  case h_1 rest => exact absurd (h '.' rfl) (by decide)
  case h_2 => rfl

theorem EndsValue.exponent {rest : List Char} (h : EndsValue rest) :
    exponent rest = some (none, rest) := by
  cases rest with
  | nil => rfl
  | cons c rest =>
    have hc : ¬(c = 'e' ∨ c = 'E') := by
      rcases h c rfl with rfl | rfl | rfl <;> decide
    simp only [Json.exponent, if_neg hc]

theorem wholeDigits_toDigits (n : Nat) {rest : List Char} (h : EndsDigits rest) :
    wholeDigits (Nat.toDigits 10 n ++ rest) = some (Nat.toDigits 10 n, rest) := by
  have hspan := spanDigits_append_of_digits (fun _ => isDigit_of_mem_toDigits (n := n)) h
  have hne : Nat.toDigits 10 n ≠ [] := Nat.toDigits_ne_nil
  unfold wholeDigits
  split
  case h_1 rest' heq =>
    -- a zero in front is the whole of the number
    have hzero : n = 0 := Nat.eq_zero_of_not_pos fun hpos => by
      apply head?_toDigits_ne hpos
      have hhead := congrArg List.head? heq
      rwa [List.head?_append, List.head?_eq_some_head hne, Option.some_or,
        ← List.head?_eq_some_head hne] at hhead
    subst hzero
    obtain rfl : rest = rest' := (List.cons.inj heq).2
    cases rest with
    | nil => rfl
    | cons c rest => simp [h c rfl, Nat.toDigits_zero]
  case h_2 =>
    rw [hspan]
    split
    case h_1 heq => exact absurd (Prod.mk.inj (Option.some.inj (congrArg some heq))).1 hne
    case h_2 => rfl

def FitsInt (n : Int) : Prop := Int64.minValue.toInt ≤ n ∧ n < UInt64.size

theorem numberValue_whole {negative : Bool} {m : Nat} {n : Int}
    (hvalue : (if negative then -(m : Int) else m) = n) (hsign : ¬(negative ∧ m = 0))
    (hn : FitsInt n) : numberValue negative (Nat.toDigits 10 m) [] none = .int n := by
  simp only [numberValue, valueOf_toDigits, hvalue]
  exact if_pos ⟨trivial, trivial, hsign, hn.1, hn.2⟩

theorem number_toString {n : Int} (hn : FitsInt n) {rest : List Char} (h : EndsValue rest) :
    number ((toString n).toList ++ rest) = some (.int n, rest) := by
  have hwhole (m : Nat) := wholeDigits_toDigits m h.endsDigits
  rw [Int.toString_eq_repr]
  cases n with
  | ofNat m =>
    have htext : (Int.repr (Int.ofNat m)).toList = Nat.toDigits 10 m := Nat.toList_repr
    rw [htext, number]
    · simp only [hwhole, h.fractionDigits, h.exponent, Option.bind_eq_bind, Option.bind_some]
      rw [numberValue_whole (n := Int.ofNat m) rfl (by simp) hn]
    · exact fun _ => append_ne_cons Nat.toDigits_ne_nil (fun _ => isDigit_of_mem_toDigits) (by decide)
  | negSucc m =>
    have htext : (Int.repr (Int.negSucc m)).toList = '-' :: Nat.toDigits 10 (m + 1) := by
      simp [Int.repr, Nat.toList_repr]
    rw [htext, List.cons_append, number]
    simp only [hwhole, h.fractionDigits, h.exponent, Option.bind_eq_bind, Option.bind_some]
    rw [numberValue_whole (n := Int.negSucc m) rfl (by simp) hn]

/-! ## Leaves -/

/-- The text of a value is read as the value, in whatever text it stands. No step of the reader takes
less than one character, so the length of the text is fuel enough. -/
structure Reads (depth : Nat) (j : Json) : Prop where
  starts : ∃ c rest, (compact j).toList = c :: rest ∧ isSpace c = false ∧ c ≠ ']'
  value_eq : ∀ {fuel : Nat} (rest : List Char), (compact j).toList.length ≤ fuel → EndsValue rest →
    value fuel depth ((compact j).toList ++ rest) = some (j, rest)

theorem skipSpace_cons {c : Char} (h : isSpace c = false) (rest : List Char) :
    skipSpace (c :: rest) = c :: rest := by
  simp [skipSpace, h]

theorem reads_of_leaf {j : Json} {c : Char} {text : List Char}
    (htext : (compact j).toList = c :: text) (hspace : isSpace c = false)
    (hbracket : c ∉ ['[', ']', '\x7b'])
    (hleaf : ∀ {rest : List Char}, EndsValue rest → leaf (c :: (text ++ rest)) = some (j, rest))
    (depth : Nat) : Reads depth j := by
  simp only [List.mem_cons, List.not_mem_nil, or_false, not_or] at hbracket
  refine ⟨⟨c, text, htext, hspace, hbracket.2.1⟩, fun {fuel} rest hfuel hrest => ?_⟩
  rw [htext] at hfuel ⊢
  obtain ⟨fuel, rfl, -⟩ := exists_fuel (Nat.lt_of_lt_of_le (Nat.zero_lt_succ _) hfuel)
  rw [List.cons_append, value, skipSpace_cons hspace]
  split
  case h_1 heq => exact absurd (List.cons.inj heq).1 hbracket.1
  case h_2 heq => exact absurd (List.cons.inj heq).1 hbracket.2.2
  case h_3 => exact hleaf hrest

theorem reads_null (depth : Nat) : Reads depth .null :=
  reads_of_leaf rfl (by decide) (by decide) (fun _ => rfl) depth

theorem reads_bool (b : Bool) (depth : Nat) : Reads depth (.bool b) := by
  cases b
  · exact reads_of_leaf rfl (by decide) (by decide) (fun _ => rfl) depth
  · exact reads_of_leaf rfl (by decide) (by decide) (fun _ => rfl) depth

theorem reads_str (s : String) (depth : Nat) : Reads depth (.str s) := by
  have htext : (compact (.str s)).toList = '"' :: (s.toList.flatMap escaped ++ ['"']) := by
    simpa [compact] using toList_quoted s []
  refine reads_of_leaf htext (by decide) (by decide) (fun {rest} _ => ?_) depth
  rw [List.append_assoc, List.singleton_append, leaf, stringText_quoted]
  rfl

theorem leaf_number {c : Char} (h : c = '-' ∨ isDigit c = true) (rest : List Char) :
    leaf (c :: rest) = number (c :: rest) := by
  rcases h with rfl | h
  · rfl
  · rw [leaf] <;> exact fun _ heq => ne_of_isDigit h (by decide) (List.cons.inj heq).1

theorem exists_toList_int (n : Int) :
    ∃ c text, (toString n).toList = c :: text ∧ (c = '-' ∨ isDigit c = true) := by
  rw [Int.toString_eq_repr]
  cases n with
  | ofNat m =>
    have htext : (Int.repr (Int.ofNat m)).toList = Nat.toDigits 10 m := Nat.toList_repr
    obtain ⟨c, text, hcons⟩ := List.exists_cons_of_ne_nil (Nat.toDigits_ne_nil (b := 10) (n := m))
    exact ⟨c, text, htext.trans hcons, .inr (isDigit_of_mem_toDigits (hcons ▸ List.mem_cons_self))⟩
  | negSucc m => exact ⟨'-', (Nat.repr (m + 1)).toList, by simp [Int.repr], .inl rfl⟩

theorem reads_int {n : Int} (hn : FitsInt n) (depth : Nat) : Reads depth (.int n) := by
  obtain ⟨c, text, htext, hc⟩ := exists_toList_int n
  have hne {d : Char} (hdigit : isDigit d = false) (hminus : '-' ≠ d) : c ≠ d := by
    rcases hc with rfl | hc
    · exact hminus
    · exact ne_of_isDigit hc hdigit
  have hspace : isSpace c = false := by
    simp only [isSpace, Bool.or_eq_false_iff, beq_eq_false_iff_ne]
    exact ⟨⟨⟨hne rfl (by decide), hne rfl (by decide)⟩, hne rfl (by decide)⟩, hne rfl (by decide)⟩
  have hbracket : c ∉ ['[', ']', '\x7b'] := by
    simp only [List.mem_cons, List.not_mem_nil, or_false, not_or]
    exact ⟨hne rfl (by decide), hne rfl (by decide), hne rfl (by decide)⟩
  refine reads_of_leaf (by rw [compact, htext]) hspace hbracket (fun hrest => ?_) depth
  rw [leaf_number hc, ← List.cons_append, ← htext, number_toString hn hrest]

/-! ## Lists -/

def entriesThen (entries : List String) (after : List Char) : List Char :=
  (",".intercalate entries).toList ++ after

theorem entriesThen_singleton (entry : String) (after : List Char) :
    entriesThen [entry] after = entry.toList ++ after := by
  simp [entriesThen]

theorem entriesThen_cons_cons (entry next : String) (rest : List String) (after : List Char) :
    entriesThen (entry :: next :: rest) after =
      entry.toList ++ ',' :: entriesThen (next :: rest) after := by
  simp [entriesThen]

theorem exists_entriesThen_cons (entry : String) (rest : List String) (after : List Char) :
    ∃ more, entriesThen (entry :: rest) after = entry.toList ++ more := by
  cases rest with
  | nil => exact ⟨after, entriesThen_singleton entry after⟩
  | cons next rest => exact ⟨_, entriesThen_cons_cons entry next rest after⟩

/-- The items of a list, from one item on. The fuel that is left after an item is enough for the
text that is left. -/
theorem items_entriesThen {depth : Nat} {item : Json} {rest : List Json}
    (h : ∀ j ∈ item :: rest, Reads depth j) {fuel : Nat} (acc : List Json) (after : List Char)
    (hfuel : (entriesThen (compactItems (item :: rest)) []).length < fuel) :
    items fuel depth acc (entriesThen (compactItems (item :: rest)) (']' :: after)) =
      some (.arr (acc.reverse ++ item :: rest), after) := by
  induction rest generalizing item fuel acc with
  | nil =>
    obtain ⟨fuel, rfl, hle⟩ := exists_fuel hfuel
    simp only [compactItems, entriesThen_singleton, List.append_nil] at hle ⊢
    rw [items, (h item List.mem_cons_self).value_eq _ hle (endsValue_cons (by decide) after)]
    simp [skipSpace_cons (c := ']') rfl]
  | cons next rest ih =>
    obtain ⟨fuel, rfl, hle⟩ := exists_fuel hfuel
    simp only [compactItems, entriesThen_cons_cons, List.length_append, List.length_cons] at hle
    -- an item takes one step of fuel, and with the comma after it two characters or more
    have hrest := ih (fun j hj => h j (List.mem_cons_of_mem _ hj)) (item :: acc)
      (show (entriesThen (compactItems (next :: rest)) []).length < fuel by
        simp only [compactItems]
        omega)
    simp only [compactItems, List.reverse_cons, List.append_assoc, List.singleton_append,
      entriesThen_cons_cons] at hrest ⊢
    rw [items, (h item List.mem_cons_self).value_eq _ (by omega) (endsValue_cons (by decide) _)]
    simp only [Option.bind_eq_bind, Option.bind_some, skipSpace_cons (c := ',') rfl, hrest]

theorem toList_compact_arr (items : List Json) (rest : List Char) :
    (compact (.arr items)).toList ++ rest =
      '[' :: entriesThen (compactItems items) (']' :: rest) := by
  simp [compact, entriesThen]

theorem reads_arr {depth : Nat} {items : List Json} (h : ∀ j ∈ items, Reads depth j) :
    Reads (depth + 1) (.arr items) := by
  have htext := toList_compact_arr items []
  rw [List.append_nil] at htext
  refine ⟨⟨'[', _, htext, by decide⟩, fun {fuel} rest hfuel _ => ?_⟩
  have hlength : (entriesThen (compactItems items) []).length + 1 < fuel := by
    simpa [htext, entriesThen, Nat.succ_le_iff] using hfuel
  obtain ⟨fuel, rfl, hle⟩ := exists_fuel hlength
  rw [toList_compact_arr, value, skipSpace_cons rfl]
  cases items with
  | nil => rfl
  | cons item items =>
    have hread := items_entriesThen h [] rest hle
    obtain ⟨c, text, hstart, hspace, hbracket⟩ := (h item List.mem_cons_self).starts
    obtain ⟨more, hmore⟩ :=
      exists_entriesThen_cons (compact item) (compactItems items) (']' :: rest)
    rw [hstart] at hmore
    simp only [compactItems] at hread ⊢
    rw [hmore] at hread ⊢
    simp only [List.cons_append, skipSpace_cons hspace] at hread ⊢
    rw [if_neg (by simp)]
    split
    case h_1 heq => exact absurd (List.cons.inj heq).1 hbracket
    case h_2 => exact hread

/-! ## Objects -/

theorem toList_field (name : String) (j : Json) (after : List Char) :
    (quoted name ++ ":" ++ compact j).toList ++ after =
      '"' :: (name.toList.flatMap escaped ++ '"' :: ':' :: ((compact j).toList ++ after)) := by
  simp [quoted]

theorem fieldName_quoted (name : String) (after : List Char) :
    fieldName ('"' :: (name.toList.flatMap escaped ++ '"' :: ':' :: after)) =
      some (some name, after) := by
  rw [fieldName, skipSpace_cons rfl]
  simp only [stringText_quoted, Option.bind_eq_bind, Option.bind_some, skipSpace_cons (c := ':') rfl]

theorem fields_entriesThen {depth : Nat} {name : String} {j : Json} {rest : List (String × Json)}
    (h : ∀ f ∈ (name, j) :: rest, Reads depth f.2) {fuel : Nat} (acc : List (String × Json))
    (after : List Char)
    (hfuel : (entriesThen (compactFields ((name, j) :: rest)) []).length < fuel) :
    fields fuel depth (some acc)
        (entriesThen (compactFields ((name, j) :: rest)) ('\x7d' :: after)) =
      some (.obj (acc.reverse ++ (name, j) :: rest), after) := by
  have hj : Reads depth j := h (name, j) List.mem_cons_self
  -- Each field takes some of the text, so the length of what is left is fuel enough for the fields left.
  induction rest generalizing name j fuel acc with
  | nil =>
    obtain ⟨fuel, rfl, hle⟩ := exists_fuel hfuel
    simp only [compactFields, entriesThen_singleton, toList_field, List.length_append,
      List.length_cons] at hle ⊢
    rw [fields, fieldName_quoted]
    simp only [Option.bind_eq_bind, Option.bind_some]
    rw [hj.value_eq _ (by omega) (endsValue_cons (by decide) after)]
    simp [skipSpace_cons (c := '\x7d') rfl, objectOf]
  | cons next rest ih =>
    obtain ⟨other, k⟩ := next
    obtain ⟨fuel, rfl, hle⟩ := exists_fuel hfuel
    simp only [compactFields, entriesThen_cons_cons, toList_field, List.length_append,
      List.length_cons] at hle
    have hrest := ih (fun f hf => h f (List.mem_cons_of_mem _ hf)) ((name, j) :: acc)
      (show (entriesThen (compactFields ((other, k) :: rest)) []).length < fuel by
        simp only [compactFields]
        omega)
      (h (other, k) (by simp))
    simp only [compactFields, List.reverse_cons, List.append_assoc, List.singleton_append,
      entriesThen_cons_cons, toList_field] at hrest ⊢
    rw [fields, fieldName_quoted]
    simp only [Option.bind_eq_bind, Option.bind_some]
    rw [hj.value_eq _ (by omega) (endsValue_cons (by decide) _)]
    simp only [Option.bind_some, Option.map_some, skipSpace_cons (c := ',') rfl, hrest]

theorem toList_compact_obj (fields : List (String × Json)) (rest : List Char) :
    (compact (.obj fields)).toList ++ rest =
      '\x7b' :: entriesThen (compactFields fields) ('\x7d' :: rest) := by
  simp [compact, entriesThen]

theorem reads_obj {depth : Nat} {fields : List (String × Json)}
    (h : ∀ f ∈ fields, Reads depth f.2) : Reads (depth + 1) (.obj fields) := by
  have htext := toList_compact_obj fields []
  rw [List.append_nil] at htext
  refine ⟨⟨'\x7b', _, htext, by decide⟩, fun {fuel} rest hfuel _ => ?_⟩
  have hlength : (entriesThen (compactFields fields) []).length + 1 < fuel := by
    simpa [htext, entriesThen, Nat.succ_le_iff] using hfuel
  obtain ⟨fuel, rfl, hle⟩ := exists_fuel hlength
  rw [toList_compact_obj, value, skipSpace_cons rfl]
  cases fields with
  | nil => rfl
  | cons field fields =>
    obtain ⟨name, j⟩ := field
    have hread := fields_entriesThen h [] rest hle
    obtain ⟨more, hmore⟩ := exists_entriesThen_cons (quoted name ++ ":" ++ compact j)
      (compactFields fields) ('\x7d' :: rest)
    rw [toList_field] at hmore
    simp only [compactFields] at hread ⊢
    rw [hmore] at hread ⊢
    simp only [skipSpace_cons (c := '"') rfl] at hread ⊢
    rw [if_neg (by simp)]
    exact hread

/-! ## Whole texts -/

/-- A value that its text tells exactly: without floats, with whole numbers of 64 bits, and nested
at most so deep. -/
inductive Exact : Nat → Json → Prop
  | null (depth : Nat) : Exact depth .null
  | bool (depth : Nat) (b : Bool) : Exact depth (.bool b)
  | int (depth : Nat) {n : Int} (hn : FitsInt n) : Exact depth (.int n)
  | str (depth : Nat) (s : String) : Exact depth (.str s)
  | arr {depth : Nat} {items : List Json} (h : ∀ j ∈ items, Exact depth j) :
    Exact (depth + 1) (.arr items)
  | obj {depth : Nat} {fields : List (String × Json)} (h : ∀ f ∈ fields, Exact depth f.2) :
    Exact (depth + 1) (.obj fields)

theorem Exact.reads {depth : Nat} {j : Json} (h : Exact depth j) : Reads depth j := by
  induction h with
  | null depth => exact reads_null depth
  | bool depth b => exact reads_bool b depth
  | int depth hn => exact reads_int hn depth
  | str depth s => exact reads_str s depth
  | arr _ ih => exact reads_arr ih
  | obj _ ih => exact reads_obj ih

theorem areFit_of_all {items : List Json} (h : ∀ j ∈ items, j.isFit = true) :
    areFit items = true := by
  induction items with
  | nil => rfl
  | cons j items ih =>
    obtain ⟨hj, hitems⟩ := List.forall_mem_cons.1 h
    simp [areFit, hj, ih hitems]

theorem areFieldsFit_of_all {fields : List (String × Json)} (h : ∀ f ∈ fields, f.2.isFit = true) :
    areFieldsFit fields = true := by
  induction fields with
  | nil => rfl
  | cons field fields ih =>
    obtain ⟨hfield, hfields⟩ := List.forall_mem_cons.1 h
    simp [areFieldsFit, hfield, ih hfields]

theorem Exact.isFit {depth : Nat} {j : Json} (h : Exact depth j) : j.isFit = true := by
  induction h with
  | null | bool | int | str => simp only [Json.isFit]
  | arr _ ih => exact areFit_of_all ih
  | obj _ ih => exact areFieldsFit_of_all ih

theorem read?_compact {j : Json} (h : Exact 127 j) : read? (compact j) = some j := by
  have hread := h.reads.value_eq []
    (show (compact j).toList.length ≤ 2 * (compact j).toList.length + 2 by omega)
    (by simp [EndsValue])
  rw [List.append_nil] at hread
  have hloosely : readLoosely? (compact j) = some j := by
    simp [readLoosely?, hread, skipSpace]
  rw [read?, hloosely, Option.filter_some, if_pos h.isFit]

end Draftboard.Json
