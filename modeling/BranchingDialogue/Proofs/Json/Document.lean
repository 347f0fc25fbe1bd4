import BranchingDialogue.Json.Reader
import BranchingDialogue.Json.Writer
import BranchingDialogue.Proofs.Json.NumberText
import BranchingDialogue.Proofs.Json.Quoted

/-! A written document is read as itself, but for its numbers: each of them is read as its own text
says. A document whose numbers are read back from their texts is read back as a whole. Blanks
between the parts of a document do not matter, so that this is shown once for all ways to lay it
out. -/

namespace BranchingDialogue.Json

/-! ## Scalars -/

def Number.asRead (number : Number) : Json :=
  match numberAndRest (writeNumber number) with
  | some (read, []) => .number read
  | _ => .null

private theorem skipSpace_append {blanks : List Char}
    (blank : ∀ character ∈ blanks, isSpace character = true) (text : List Char) :
    skipSpace (blanks ++ text) = skipSpace text :=
  List.dropWhile_append_of_pos blank

private theorem skipSpace_cons {first : Char} (shown : isSpace first = false) (rest : List Char) :
    skipSpace (first :: rest) = first :: rest := by
  simp [skipSpace, shown]

private theorem writeNumber_cases (number : Number) :
    (∃ read first rest, numberAndRest (writeNumber number) = some (read, []) ∧
      writeNumber number = first :: rest ∧ (first = '-' ∨ first.isDigit = true)) ∨
      writeNumber number = "null".toList := by
  have signed {text whole places : List Char} {power : Option Int}
      (isNumber : IsNumber text whole places power) (negative : Bool)
      (written : writeNumber number = if negative then '-' :: text else text) :
      ∃ read first rest, numberAndRest (writeNumber number) = some (read, []) ∧
        writeNumber number = first :: rest ∧ (first = '-' ∨ first.isDigit = true) := by
    obtain ⟨digit, others, rfl, isDigit⟩ := isNumber.exists_digit
    rw [written, isNumber.numberAndRest_signed]
    cases negative with
    | true => exact ⟨_, _, _, rfl, rfl, Or.inl rfl⟩
    | false => exact ⟨_, _, _, rfl, rfl, Or.inr isDigit⟩
  cases number with
  | whole amount =>
      have isNumber : IsNumber (Decimal.digits amount.natAbs ++ []) (Decimal.digits amount.natAbs)
          [] none :=
        isNumber_of_read (by simpa using Decimal.allDigits_digits amount.natAbs)
          (beginsNumber_digits amount.natAbs) (by simp) rfl rfl
      rw [List.append_nil] at isNumber
      refine Or.inl (signed isNumber (decide (amount < 0)) ?_)
      by_cases negative : amount < 0 <;> simp [writeNumber, negative]
  | real amount =>
      cases finite : amount.isFinite with
      | true =>
          obtain ⟨text, whole, places, power, written, isNumber, -⟩ := exists_isNumber amount
          refine Or.inl (signed isNumber (hasMinusSign amount) ?_)
          rw [← written]
          simp [writeNumber, finite]
      | false =>
          right
          simp [writeNumber, finite]
  | tooLarge => exact Or.inr rfl

/-! ## Values -/

section Values

variable (fuel : Nat) {rest : List Char}

private theorem valueAndRest_quote (content : String) (rest : List Char) :
    valueAndRest (fuel + 1) (quote content ++ rest) = some (.string (some content), rest) := by
  rw [quote_append, valueAndRest, skipSpace_cons rfl]
  simp [textAndRest_quoted]

private theorem valueAndRest_constant {name : String} {value : Json}
    (listed : (name, value) ∈ constants)
    (rest : List Char) : valueAndRest (fuel + 1) (name.toList ++ rest) = some (value, rest) := by
  simp only [constants, List.mem_cons, List.not_mem_nil, or_false] at listed
  rcases listed with equality | equality | equality <;> cases equality <;> rfl

private theorem valueAndRest_number {number : Number} {first : Char} {text : List Char}
    (starts : first = '-' ∨ first.isDigit = true)
    (read : numberAndRest (first :: text) = some (number, [])) (stops : Stops rest) :
    valueAndRest (fuel + 1) ((first :: text) ++ rest) = some (.number number, rest) := by
  have other (mark : Char) (apart : mark ≠ '-' ∧ mark.isDigit = false) : first ≠ mark := by
    rintro rfl
    rcases starts with minus | digit
    · exact apart.1 minus
    · rw [apart.2] at digit
      cases digit
  have noSpace : isSpace first = false := by
    simp [isSpace, other ' ' (by decide), other '\n' (by decide), other '\t' (by decide),
      other '\r' (by decide)]
  have noConstant : constantAndRest (first :: (text ++ rest)) = none := by
    simp [constantAndRest, constants, List.isPrefixOf?, Ne.symm (other 'n' (by decide)),
      Ne.symm (other 't' (by decide)), Ne.symm (other 'f' (by decide))]
  have whole : numberAndRest (first :: (text ++ rest)) = some (number, rest) :=
    numberAndRest_append stops read
  rw [List.cons_append, valueAndRest, skipSpace_cons noSpace]
  split
  · rename_i equality
    exact absurd (List.cons.inj equality).1 (other '"' (by decide))
  · rename_i equality
    exact absurd (List.cons.inj equality).1 (other '[' (by decide))
  · rename_i equality
    exact absurd (List.cons.inj equality).1 (other '{' (by decide))
  · rw [noConstant, whole]
    rfl

end Values

/-! ## Documents -/

mutual

/-- What a document is read as. -/
def asRead : Json → Json
  | .number amount => amount.asRead
  | .string none => .null
  | .list items => .list (itemsAsRead items)
  | .object members => .object (membersAsRead members)
  | scalar => scalar

def itemsAsRead : List Json → List Json
  | [] => []
  | item :: rest => asRead item :: itemsAsRead rest

def membersAsRead : List (Text × Json) → List (Text × Json)
  | [] => []
  | (key, value) :: rest => (key, asRead value) :: membersAsRead rest

end

mutual

/-- Whether all keys of a document can be written. -/
def hasKeys : Json → Bool
  | .list items => haveKeys items
  | .object members => haveMemberKeys members
  | _ => true

def haveKeys : List Json → Bool
  | [] => true
  | item :: rest => hasKeys item && haveKeys rest

def haveMemberKeys : List (Text × Json) → Bool
  | [] => true
  | (key, value) :: rest => key.isSome && hasKeys value && haveMemberKeys rest

end

/-! ## Blanks between the parts -/

private theorem skipSpace_skipSpace (text : List Char) :
    skipSpace (skipSpace text) = skipSpace text :=
  List.dropWhile_idempotent isSpace text

private theorem valueAndRest_skipSpace (fuel : Nat) (text : List Char) :
    valueAndRest fuel (skipSpace text) = valueAndRest fuel text := by
  cases fuel with
  | zero => rfl
  | succ fuel =>
      rw [valueAndRest, valueAndRest]
      simp only [skipSpace_skipSpace]

private theorem itemsAndRest_skipSpace (fuel : Nat) (text : List Char) :
    itemsAndRest fuel (skipSpace text) = itemsAndRest fuel text := by
  cases fuel with
  | zero => rfl
  | succ fuel =>
      rw [itemsAndRest, itemsAndRest]
      simp only [valueAndRest_skipSpace]

private theorem membersAndRest_skipSpace (fuel : Nat) (text : List Char) :
    membersAndRest fuel (skipSpace text) = membersAndRest fuel text := by
  cases fuel with
  | zero => rfl
  | succ fuel =>
      rw [membersAndRest, membersAndRest]
      simp only [skipSpace_skipSpace]

/-- Blanks before a value do not matter. -/
theorem valueAndRest_append {blanks : List Char}
    (blank : ∀ character ∈ blanks, isSpace character = true) (fuel : Nat) (text : List Char) :
    valueAndRest fuel (blanks ++ text) = valueAndRest fuel text := by
  rw [← valueAndRest_skipSpace, skipSpace_append blank, valueAndRest_skipSpace]

private theorem stops_append {blanks rest : List Char}
    (blank : ∀ character ∈ blanks, isSpace character = true) (stops : Stops rest) :
    Stops (blanks ++ rest) := by
  cases blanks with
  | nil => exact stops
  | cons first blanks =>
      rintro _ ⟨⟩
      have space := blank first List.mem_cons_self
      simp only [isSpace, Bool.or_eq_true, decide_eq_true_eq] at space
      rcases space with ((rfl | rfl) | rfl) | rfl <;> decide

private theorem stops_bracket (rest : List Char) : Stops (']' :: rest) := by
  rintro _ ⟨⟩
  decide

private theorem stops_brace (rest : List Char) : Stops ('}' :: rest) := by
  rintro _ ⟨⟩
  decide

private theorem stops_comma (rest : List Char) : Stops (',' :: rest) := by
  rintro _ ⟨⟩
  decide

/-! ## Items and members -/

section Parts

variable {fuel : Nat} {blanks text after rest next : List Char} {item value : Json} {key : String}

/-- The last item is read up to the closing bracket. -/
theorem itemsAndRest_last (blank : ∀ character ∈ after, isSpace character = true)
    (read : valueAndRest fuel text = some (item, after ++ ']' :: rest)) :
    itemsAndRest (fuel + 1) text = some ([item], rest) := by
  have bracket : skipSpace (after ++ ']' :: rest) = ']' :: rest := by
    rw [skipSpace_append blank, skipSpace_cons rfl]
  rw [itemsAndRest, read]
  simp only [Option.bind_eq_bind, Option.bind_some, bracket]
  rfl

/-- An item before a comma is read, and then the others. -/
theorem itemsAndRest_next (read : valueAndRest fuel text = some (item, ',' :: next)) :
    itemsAndRest (fuel + 1) text =
      (itemsAndRest fuel next).map fun (others, rest) => (item :: others, rest) := by
  have comma : skipSpace (',' :: next) = ',' :: next := skipSpace_cons rfl next
  rw [itemsAndRest, read]
  simp only [Option.bind_eq_bind, Option.bind_some, comma]
  cases itemsAndRest fuel next <;> rfl

/-- The key of a member and its colon are read up to the value. -/
theorem afterKey_member (blank : ∀ character ∈ blanks, isSpace character = true)
    (text : List Char) :
    List.isPrefixOf? ['"'] (skipSpace (blanks ++ (writeText (some key) ++ ':' :: text))) =
        some (key.toList.flatMap writeCharacter ++ '"' :: ':' :: text) ∧
      List.isPrefixOf? [':'] (skipSpace (':' :: text)) = some text := by
  constructor
  · rw [skipSpace_append blank, writeText, quote_append, skipSpace_cons rfl]
    rfl
  · rw [skipSpace_cons rfl]
    rfl

/-- The last member is read up to the closing brace. -/
theorem membersAndRest_last (blank : ∀ character ∈ blanks, isSpace character = true)
    (blankAfter : ∀ character ∈ after, isSpace character = true)
    (read : valueAndRest fuel text = some (value, after ++ '}' :: rest)) :
    membersAndRest (fuel + 1) (blanks ++ (writeText (some key) ++ ':' :: text)) =
      some ([(some key, value)], rest) := by
  obtain ⟨opened, colon⟩ := @afterKey_member blanks key blank text
  have brace : skipSpace (after ++ '}' :: rest) = '}' :: rest := by
    rw [skipSpace_append blankAfter, skipSpace_cons rfl]
  rw [membersAndRest, opened]
  simp only [Option.bind_eq_bind, Option.bind_some, textAndRest_quoted, colon, read, brace]
  rfl

/-- A member before a comma is read, and then the others. -/
theorem membersAndRest_next (blank : ∀ character ∈ blanks, isSpace character = true)
    (read : valueAndRest fuel text = some (value, ',' :: next)) :
    membersAndRest (fuel + 1) (blanks ++ (writeText (some key) ++ ':' :: text)) =
      (membersAndRest fuel next).map fun (others, rest) => ((some key, value) :: others, rest) := by
  obtain ⟨opened, colon⟩ := @afterKey_member blanks key blank text
  have comma : skipSpace (',' :: next) = ',' :: next := skipSpace_cons rfl next
  rw [membersAndRest, opened]
  simp only [Option.bind_eq_bind, Option.bind_some, textAndRest_quoted, colon, read, comma]
  cases membersAndRest fuel next <;> rfl

end Parts

private theorem valueAndRest_bracket (fuel : Nat) (inside : List Char) :
    valueAndRest (fuel + 1) ('[' :: inside) =
      match skipSpace inside with
      | ']' :: after => some (.list [], after)
      | first => (itemsAndRest fuel first).map fun (items, after) => (.list items, after) := by
  rfl

private theorem valueAndRest_brace (fuel : Nat) (inside : List Char) :
    valueAndRest (fuel + 1) ('{' :: inside) =
      match skipSpace inside with
      | '}' :: after => some (.object [], after)
      | first =>
          (membersAndRest fuel first).map fun (members, after) => (.object members, after) := by
  rfl

private theorem valueAndRest_asRead (amount : Number) (fuel : Nat) {rest : List Char}
    (stops : Stops rest) :
    valueAndRest (fuel + 1) (writeNumber amount ++ rest) = some (amount.asRead, rest) := by
  unfold Number.asRead
  rcases writeNumber_cases amount with ⟨read, first, text, readEq, written, starts⟩ | null
  · rw [readEq]
    rw [written] at readEq ⊢
    exact valueAndRest_number fuel starts readEq stops
  · have unread : numberAndRest "null".toList = none := by decide
    rw [null, unread]
    exact valueAndRest_constant fuel (by simp [constants]) rest

/-! ## Documents in a layout -/

namespace Layout

variable (layout : Layout) (level : Nat)

/-- No document begins with a blank or ends something else. -/
theorem exists_write_cons (document : Json) :
    ∃ first text, layout.write level document = first :: text ∧ isSpace first = false ∧
      first ≠ ']' := by
  cases document with
  | null => exact ⟨_, _, rfl, rfl, by decide⟩
  | bool truth => cases truth <;> exact ⟨_, _, rfl, rfl, by decide⟩
  | number amount =>
      rcases writeNumber_cases amount with ⟨read, first, text, -, written, minus | digit⟩ | null
      · exact ⟨first, text, written, by rw [minus]; rfl, by rw [minus]; decide⟩
      · refine ⟨first, text, written, ?_, ?_⟩
        · cases blank : isSpace first with
          | false => rfl
          | true =>
              simp only [isSpace, Bool.or_eq_true, decide_eq_true_eq] at blank
              rcases blank with ((rfl | rfl) | rfl) | rfl <;> cases digit
        · rintro rfl
          cases digit
      · exact ⟨_, _, null, rfl, by decide⟩
  | string content =>
      cases content with
      | none => exact ⟨_, _, rfl, rfl, by decide⟩
      | some content => exact ⟨_, _, rfl, rfl, by decide⟩
  | list items => cases items <;> exact ⟨_, _, rfl, rfl, by decide⟩
  | object members => cases members <;> exact ⟨_, _, rfl, rfl, by decide⟩

/-- The first of some items begins with no closing bracket. -/
theorem skipSpace_writeItems (item : Json) (items : List Json) (rest : List Char) :
    ∃ first text, skipSpace (layout.writeItems level (item :: items) ++ rest) = first :: text ∧
      first ≠ ']' := by
  obtain ⟨first, text, written, shown, noEnd⟩ := layout.exists_write_cons level item
  have started (after : List Char) :
      skipSpace (layout.line level ++ (layout.write level item ++ after)) =
        first :: (text ++ after) := by
    rw [skipSpace_append (layout.blank_line level), written]
    exact skipSpace_cons shown _
  cases items with
  | nil =>
      refine ⟨first, text ++ rest, ?_, noEnd⟩
      rw [writeItems, List.append_assoc]
      exact started rest
  | cons next others =>
      refine ⟨first, text ++ ',' :: (layout.writeItems level (next :: others) ++ rest), ?_, noEnd⟩
      simpa [writeItems] using started (',' :: (layout.writeItems level (next :: others) ++ rest))

/-- The first of some members begins with its key. -/
theorem skipSpace_writeMembers (key : String) (value : Json) (members : List (Text × Json))
    (rest : List Char) :
    ∃ text, skipSpace (layout.writeMembers level ((some key, value) :: members) ++ rest) =
      '"' :: text := by
  have started (after : List Char) :
      ∃ text, skipSpace (layout.line level ++ (quote key ++ after)) = '"' :: text := by
    rw [skipSpace_append (layout.blank_line level), quote_append]
    exact ⟨_, skipSpace_cons rfl _⟩
  cases members with
  | nil =>
      simp only [writeMembers, writeText, List.append_assoc]
      exact started _
  | cons next others =>
      simp only [writeMembers, writeText, List.append_assoc]
      exact started _

variable {level} {fuel : Nat} {rest : List Char}

private theorem valueAndRest_list {item : Json} {items : List Json}
    (read : itemsAndRest fuel (layout.writeItems (level + 1) (item :: items) ++
      (layout.line level ++ ']' :: rest)) = some (itemsAsRead (item :: items), rest)) :
    valueAndRest (fuel + 1) (layout.write level (.list (item :: items)) ++ rest) =
      some (asRead (.list (item :: items)), rest) := by
  have opened : layout.write level (.list (item :: items)) ++ rest =
      '[' :: (layout.writeItems (level + 1) (item :: items) ++
        (layout.line level ++ ']' :: rest)) := by
    simp [write]
  rw [opened, valueAndRest_bracket]
  obtain ⟨first, text, started, noEnd⟩ :=
    layout.skipSpace_writeItems (level + 1) item items (layout.line level ++ ']' :: rest)
  split
  · rename_i equality
    rw [started] at equality
    exact absurd (List.cons.inj equality).1 noEnd
  · rw [itemsAndRest_skipSpace, read]
    rfl

private theorem valueAndRest_object {key : String} {value : Json} {members : List (Text × Json)}
    (read : membersAndRest fuel (layout.writeMembers (level + 1) ((some key, value) :: members) ++
      (layout.line level ++ '}' :: rest)) =
        some (membersAsRead ((some key, value) :: members), rest)) :
    valueAndRest (fuel + 1) (layout.write level (.object ((some key, value) :: members)) ++ rest) =
      some (asRead (.object ((some key, value) :: members)), rest) := by
  have opened : layout.write level (.object ((some key, value) :: members)) ++ rest =
      '{' :: (layout.writeMembers (level + 1) ((some key, value) :: members) ++
        (layout.line level ++ '}' :: rest)) := by
    simp [write]
  rw [opened, valueAndRest_brace]
  obtain ⟨text, started⟩ :=
    layout.skipSpace_writeMembers (level + 1) key value members (layout.line level ++ '}' :: rest)
  split
  · rename_i equality
    rw [started] at equality
    cases equality
  · rw [membersAndRest_skipSpace, read]
    rfl

mutual

/-- A document is read as its numbers are read, whatever follows it. -/
theorem valueAndRest_write {rest : List Char} (stops : Stops rest) :
    ∀ (document : Json) (level fuel : Nat), document.hasKeys = true →
      (layout.write level document).length ≤ fuel →
        valueAndRest fuel (layout.write level document ++ rest) = some (document.asRead, rest)
  | document, level, 0, _, enough => by
      -- No document has an empty text.
      obtain ⟨first, text, written, -⟩ := layout.exists_write_cons level document
      rw [written] at enough
      cases enough
  | .null, _, fuel + 1, _, _ => by
      simp only [asRead]
      exact valueAndRest_constant fuel (by simp [constants]) rest
  | .bool true, _, fuel + 1, _, _ => by
      simp only [asRead]
      exact valueAndRest_constant fuel (by simp [constants]) rest
  | .bool false, _, fuel + 1, _, _ => by
      simp only [asRead]
      exact valueAndRest_constant fuel (by simp [constants]) rest
  | .number amount, _, fuel + 1, _, _ => by
      simp only [asRead]
      exact valueAndRest_asRead amount fuel stops
  | .string none, _, fuel + 1, _, _ => by
      simp only [asRead]
      exact valueAndRest_constant fuel (by simp [constants]) rest
  | .string (some content), _, fuel + 1, _, _ => by
      simp only [asRead]
      exact valueAndRest_quote fuel content rest
  | .list [], _, fuel + 1, _, _ => rfl
  | .list (item :: items), level, fuel + 1, keys, enough => by
      refine layout.valueAndRest_list (itemsAndRest_writeItems rest _ item items _ fuel keys ?_)
      simp only [write, List.length_cons, List.length_append, List.length_nil] at enough
      omega
  | .object [], _, fuel + 1, _, _ => rfl
  | .object ((none, _) :: _), _, _ + 1, keys, _ => by
      cases keys
  | .object ((some key, value) :: members), level, fuel + 1, keys, enough => by
      refine layout.valueAndRest_object
        (membersAndRest_writeMembers rest _ key value members _ fuel keys ?_)
      simp only [write, List.length_cons, List.length_append, List.length_nil] at enough
      omega
termination_by structural _ _ fuel => fuel

/-- Items are read up to their closing bracket. -/
theorem itemsAndRest_writeItems (rest : List Char) (outer : Nat) :
    ∀ (item : Json) (items : List Json) (level fuel : Nat), haveKeys (item :: items) = true →
      (layout.writeItems level (item :: items)).length < fuel →
        itemsAndRest fuel (layout.writeItems level (item :: items) ++
            (layout.line outer ++ ']' :: rest)) =
          some (itemsAsRead (item :: items), rest)
  | _, _, _, 0, _, enough => absurd enough (Nat.not_lt_zero _)
  | item, [], level, fuel + 1, keys, enough => by
      simp only [haveKeys, Bool.and_true] at keys
      simp only [writeItems, List.length_append] at enough
      have itemRead := valueAndRest_write
        (stops_append (layout.blank_line outer) (stops_bracket rest)) item level fuel keys (by omega)
      rw [← valueAndRest_append (layout.blank_line level)] at itemRead
      rw [writeItems, List.append_assoc]
      exact itemsAndRest_last (layout.blank_line outer) itemRead
  | item, next :: others, level, fuel + 1, keys, enough => by
      rw [haveKeys, Bool.and_eq_true] at keys
      simp only [writeItems, List.length_append, List.length_cons] at enough
      have itemRead := valueAndRest_write (stops_comma (layout.writeItems level (next :: others) ++
        (layout.line outer ++ ']' :: rest))) item level fuel keys.1 (by omega)
      have othersRead := itemsAndRest_writeItems rest outer next others level fuel keys.2 (by omega)
      rw [← valueAndRest_append (layout.blank_line level)] at itemRead
      have whole := itemsAndRest_next itemRead
      rw [othersRead] at whole
      simpa [writeItems, itemsAsRead] using whole
termination_by structural _ _ _ fuel => fuel

/-- Members are read up to their closing brace. -/
theorem membersAndRest_writeMembers (rest : List Char) (outer : Nat) :
    ∀ (key : String) (value : Json) (members : List (Text × Json)) (level fuel : Nat),
      haveMemberKeys ((some key, value) :: members) = true →
      (layout.writeMembers level ((some key, value) :: members)).length < fuel →
        membersAndRest fuel (layout.writeMembers level ((some key, value) :: members) ++
            (layout.line outer ++ '}' :: rest)) =
          some (membersAsRead ((some key, value) :: members), rest)
  | _, _, _, _, 0, _, enough => absurd enough (Nat.not_lt_zero _)
  | key, value, [], level, fuel + 1, keys, enough => by
      simp only [haveMemberKeys, Option.isSome_some, Bool.true_and, Bool.and_true] at keys
      simp only [writeMembers, List.length_append, List.length_cons] at enough
      have valueRead := valueAndRest_write
        (stops_append (layout.blank_line outer) (stops_brace rest)) value level fuel keys (by omega)
      rw [← valueAndRest_append layout.blank_gap] at valueRead
      have whole := @membersAndRest_last _ _ _ _ _ _ key (layout.blank_line level)
        (layout.blank_line outer) valueRead
      simpa [writeMembers, membersAsRead] using whole
  | _, _, (none, _) :: _, _, _ + 1, keys, _ => by
      simp [haveMemberKeys] at keys
  | key, value, (some next, following) :: others, level, fuel + 1, keys, enough => by
      rw [haveMemberKeys, Bool.and_eq_true, Option.isSome_some, Bool.true_and] at keys
      simp only [writeMembers, List.length_append, List.length_cons] at enough
      have valueRead := valueAndRest_write
        (stops_comma (layout.writeMembers level ((some next, following) :: others) ++
          (layout.line outer ++ '}' :: rest))) value level fuel keys.1 (by omega)
      have othersRead := membersAndRest_writeMembers rest outer next following others level fuel
        keys.2 (by omega)
      rw [← valueAndRest_append layout.blank_gap] at valueRead
      have whole := @membersAndRest_next _ _ _ _ _ key (layout.blank_line level) valueRead
      rw [othersRead] at whole
      simpa [writeMembers, membersAsRead] using whole
termination_by structural _ _ _ _ fuel => fuel

end

/-- A document with keys that can be written is read as its numbers are, in every layout. -/
theorem read_write {document : Json} (keys : document.hasKeys = true) (level : Nat) :
    read (String.ofList (layout.write level document)) = some document.asRead := by
  have whole := layout.valueAndRest_write stops_nil document level
    (2 * (layout.write level document).length + 2) keys (by omega)
  rw [List.append_nil] at whole
  unfold read
  simp only [String.toList_ofList, whole]
  rfl

end Layout

theorem read_compact {document : Json} (keys : document.hasKeys = true) :
    read document.compact = some document.asRead :=
  Layout.oneLine.read_write keys 0

theorem read_pretty {document : Json} (keys : document.hasKeys = true) :
    read document.pretty = some document.asRead :=
  Layout.indented.read_write keys 0

end BranchingDialogue.Json
