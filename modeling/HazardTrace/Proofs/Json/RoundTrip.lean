import HazardTrace.Json.Printer
import HazardTrace.Json.Reader
import HazardTrace.Proofs.Json.Spelling

/-!
# Reading what is written

A JSON text of a value is one that is made up of the tokens of the value (`IsText`), with any blanks
between them and any spelling of its strings. The two directions meet in this notion.

* **Reading.** `parse?_of_isText` says that reading such a text gives the value back. The lexer
  finds the tokens (`Lexes.tokens?_eq`), and the reader puts the value together from them
  (`Reader.read?_tokensOf`).
* **Writing.** Both printers write such texts, if the value holds nothing that has no spelling
  (`Writable`): `Printer.lexes_spread` for the one that uses lines, `Printer.lexes_dense` for the
  one without blanks. So what they write is read back.

The reader keeps the arrays and objects that it is inside of on a stack. What it makes of the tokens
of a value does not depend on the stack, nor on what follows them: `Reader.ReadsBack` says this of a
value, and `Reader.foldlM_tokensOf` proves it of every value by induction. Items and fields after
the first are runs of the same step, so each has a run lemma of its own (`foldlM_itemTokens`,
`foldlM_fieldTokens`), by induction on the list with what has been read so far in general position.

The printers are treated in the same pattern, value by value, with one lemma for items and one for
fields. There the point that needs care is the end of a number or a word, which shows only in the
next character. Whatever follows a value begins with a separator (`separated_spreadItems` and its
companions), and so the texts of the parts can be put behind one another (`Lexes.append`).

`Json` is a nested inductive type. `Json.induction` is its induction principle with the hypotheses
in the form that arrays and objects need.
-/

namespace HazardTrace

namespace Json

/-- Induction over values, where an array is reached from its items and an object from the values of
its fields. -/
@[elab_as_elim]
theorem induction {P : Json → Prop} (null : P .null) (bool : ∀ b, P (.bool b))
    (num : ∀ lexeme, P (.num lexeme)) (str : ∀ s, P (.str s)) (illFormed : P .illFormed)
    (arr : ∀ items, (∀ v ∈ items, P v) → P (.arr items))
    (obj : ∀ fields : List (String × Json), (∀ f ∈ fields, P f.2) → P (.obj fields)) (v : Json) :
    P v :=
  @Json.rec P (fun items ↦ ∀ v ∈ items, P v) (fun fields ↦ ∀ f ∈ fields, P f.2) (fun f ↦ P f.2)
    null bool num str arr obj illFormed (fun _ h ↦ nomatch h)
    (fun _ _ hv hvs ↦ List.forall_mem_cons.2 ⟨hv, hvs⟩) (fun _ h ↦ nomatch h)
    (fun _ _ hf hfs ↦ List.forall_mem_cons.2 ⟨hf, hfs⟩) (fun _ _ hv ↦ hv) v

/-! ### The tokens of a value -/

mutual

/-- The tokens of a value. -/
def tokensOf : Json → List Token
  | .arr [] => [.mark '[', .mark ']']
  | .arr (v :: vs) => .mark '[' :: (tokensOf v ++ itemTokens vs ++ [.mark ']'])
  | .obj [] => [.mark '{', .mark '}']
  | .obj ((k, v) :: fs) =>
    .mark '{' :: .scalar (.str k) :: .mark ':' :: (tokensOf v ++ fieldTokens fs ++ [.mark '}'])
  | v => [.scalar v]

/-- The tokens of the items of an array after the first. -/
def itemTokens : List Json → List Token
  | [] => []
  | v :: vs => .mark ',' :: (tokensOf v ++ itemTokens vs)

/-- The tokens of the fields of an object after the first. -/
def fieldTokens : List (String × Json) → List Token
  | [] => []
  | (k, v) :: fs => .mark ',' :: .scalar (.str k) :: .mark ':' :: (tokensOf v ++ fieldTokens fs)

end

/-- The text is a JSON text of the value. -/
def IsText (text : String) (v : Json) : Prop :=
  Lexes text.toList (tokensOf v)

/-- No value starts with the end of an array. -/
theorem exists_tokensOf_eq_cons (v : Json) : ∃ t ts, tokensOf v = t :: ts ∧ t ≠ .mark ']' := by
  match v with
  | .null | .bool _ | .num _ | .str _ | .illFormed => exact ⟨_, _, rfl, nofun⟩
  | .arr [] | .arr (_ :: _) => exact ⟨_, _, rfl, by simp⟩
  | .obj [] | .obj ((_, _) :: _) => exact ⟨_, _, rfl, by simp⟩

/-! ### Reading -/

namespace Reader

/-- Where a value is awaited, its tokens put it there. -/
def ReadsBack (v : Json) : Prop :=
  ∀ (outer : List Frame) (rest : List Token),
    (tokensOf v ++ rest).foldlM step (.value outer) = rest.foldlM step (place v outer)

/-- The items of an array after the first are added to those before, one after the other. -/
theorem foldlM_itemTokens {vs : List Json} (h : ∀ v ∈ vs, ReadsBack v) (before : List Json)
    (outer : List Frame) (rest : List Token) :
    (itemTokens vs ++ rest).foldlM step (.afterItem before outer) =
      rest.foldlM step (.afterItem (vs.reverse ++ before) outer) := by
  induction vs generalizing before with
  | nil => rfl
  | cons v vs ih =>
    obtain ⟨hv, hvs⟩ := List.forall_mem_cons.1 h
    rw [itemTokens, List.cons_append, List.append_assoc]
    show List.foldlM step (.value (.item before :: outer)) _ = _
    rw [hv]
    show List.foldlM step (.afterItem (v :: before) outer) _ = _
    rw [ih hvs, List.reverse_cons, List.append_assoc]
    rfl

/-- The fields of an object after the first are added to those before, each with its key. -/
theorem foldlM_fieldTokens {fs : List (String × Json)} (h : ∀ f ∈ fs, ReadsBack f.2)
    (before : List (String × Json)) (outer : List Frame) (rest : List Token) :
    (fieldTokens fs ++ rest).foldlM step (.afterField (some before) outer) =
      rest.foldlM step (.afterField (some (fs.reverse ++ before)) outer) := by
  induction fs generalizing before with
  | nil => rfl
  | cons f fs ih =>
    obtain ⟨hf, hfs⟩ := List.forall_mem_cons.1 h
    obtain ⟨k, v⟩ := f
    rw [fieldTokens, List.cons_append, List.cons_append, List.cons_append, List.append_assoc]
    show List.foldlM step (.value (.field (some before) (some k) :: outer)) _ = _
    rw [hf]
    show List.foldlM step (.afterField (some ((k, v) :: before)) outer) _ = _
    rw [ih hfs, List.reverse_cons, List.append_assoc]
    rfl

/-- Where a first item is awaited, a value is read like any item. -/
theorem foldlM_firstItem {v : Json} (outer : List Frame) (rest : List Token) :
    (tokensOf v ++ rest).foldlM step (.firstItem outer) =
      (tokensOf v ++ rest).foldlM step (.value (.item [] :: outer)) := by
  obtain ⟨t, ts, hts, ht⟩ := exists_tokensOf_eq_cons v
  rw [hts, List.cons_append, List.foldlM_cons, List.foldlM_cons, step.eq_3 t outer ht]
  rfl

/-- **The tokens of a value are read back**, wherever they stand. -/
theorem foldlM_tokensOf (v : Json) : ReadsBack v := by
  induction v using Json.induction with
  | null | bool _ | num _ | str _ | illFormed => exact fun _ _ ↦ rfl
  | arr items ih =>
    intro outer rest
    match items, ih with
    | [], _ => rfl
    | v :: vs, ih =>
      obtain ⟨hv, hvs⟩ := List.forall_mem_cons.1 ih
      rw [tokensOf, List.cons_append, List.append_assoc, List.append_assoc]
      show List.foldlM step (.firstItem outer) _ = _
      -- the first item is read where the array could still end
      rw [foldlM_firstItem, hv]
      show List.foldlM step (.afterItem [v] outer) _ = _
      rw [foldlM_itemTokens hvs]
      show List.foldlM step (place (.arr (vs.reverse ++ [v]).reverse) outer) rest = _
      simp
  | obj fields ih =>
    intro outer rest
    match fields, ih with
    | [], _ => rfl
    | (k, v) :: fs, ih =>
      obtain ⟨hv, hfs⟩ := List.forall_mem_cons.1 ih
      rw [tokensOf, List.cons_append, List.cons_append, List.cons_append, List.append_assoc,
        List.append_assoc]
      show List.foldlM step (.value (.field (some []) (some k) :: outer)) _ = _
      rw [hv]
      show List.foldlM step (.afterField (some [(k, v)]) outer) _ = _
      rw [foldlM_fieldTokens hfs]
      show List.foldlM step (place (.obj (fs.reverse ++ [(k, v)]).reverse) outer) rest = _
      simp

/-- From the tokens of a value alone, the reader gives the value. -/
theorem read?_tokensOf (v : Json) : read? (tokensOf v) = some v := by
  have h := foldlM_tokensOf v [] []
  rw [List.append_nil] at h
  rw [read?, h]
  rfl

end Reader

/-- **A text of a value is read as this value.** -/
theorem parse?_of_isText {text : String} {v : Json} (h : IsText text v) : parse? text = some v := by
  rw [parse?, Lexes.tokens?_eq h, Option.bind_some, Reader.read?_tokensOf]

/-! ### Writing -/

/-- The value can be written: its numbers are spelled as numbers, and every string in it is one. -/
inductive Writable : Json → Prop
  | null : Writable .null
  | bool (b : Bool) : Writable (.bool b)
  | num {lexeme : String} : Lexeme lexeme.toList (.num lexeme) → Writable (.num lexeme)
  | str (s : String) : Writable (.str s)
  | arr {items : List Json} : (∀ v ∈ items, Writable v) → Writable (.arr items)
  | obj {fields : List (String × Json)} : (∀ f ∈ fields, Writable f.2) → Writable (.obj fields)

/-- Natural numbers can be written. -/
theorem writable_nat (n : Nat) : Writable (.nat n) :=
  .num (lexeme_nat n)

/-- A list of values that can be written can be written. -/
theorem writable_arr_map {α : Type} {encode : α → Json} (h : ∀ a, Writable (encode a))
    (l : List α) : Writable (.arr (l.map encode)) := by
  refine .arr fun v hv ↦ ?_
  obtain ⟨a, -, rfl⟩ := List.mem_map.1 hv
  exact h a

theorem separated_nil : Separated [] :=
  fun _ h ↦ nomatch h

theorem separated_cons {c : Char} (hc : isSeparator c = true) (text : List Char) :
    Separated (c :: text) := by
  rintro _ ⟨rfl⟩
  exact hc

namespace Printer

variable {text : List Char} {ts : List Token}

/-- A new line with its indentation consists of blanks. -/
theorem lexes_newline (level : Nat) (h : Lexes text ts) : Lexes (newline level ++ text) ts := by
  have hblanks : ∀ n, Lexes (List.replicate n ' ' ++ text) ts := by
    intro n
    induction n with
    | zero => exact h
    | succ n ih => exact .blank rfl ih
  exact .blank rfl (hblanks _)

/-- The literal that is written for a string spells it. -/
theorem lexeme_literal (s : String) : Lexeme (literal s) (.str s) := by
  have h := Lexeme.str (Escape.spells_encode s.toList)
  rwa [String.ofList_toList] at h

/-- A key and its colon. -/
theorem lexes_key (k : String) (h : Lexes text ts) :
    Lexes (literal k ++ ':' :: text) (.scalar (.str k) :: .mark ':' :: ts) :=
  .scalar (lexeme_literal k) (separated_cons rfl _) (.mark rfl h)

/-- A value that stands in front of more is separated from it. -/
theorem lexes_lexeme {l : List Char} {v : Json} (h : Lexeme l v) : Lexes l [.scalar v] := by
  have hl := Lexes.scalar h separated_nil .nil
  rwa [List.append_nil] at hl

/-- Whatever follows a value in an array begins with a separator: a comma, or what follows the
array's items. -/
theorem separated_spreadItems (level : Nat) (vs : List Json) (htext : Separated text) :
    Separated (spreadItems level vs ++ text) := by
  cases vs with
  | nil => exact htext
  | cons v vs => exact separated_cons rfl _

theorem separated_spreadFields (level : Nat) (fs : List (String × Json)) (htext : Separated text) :
    Separated (spreadFields level fs ++ text) := by
  match fs with
  | [] => exact htext
  | (_, _) :: _ => exact separated_cons rfl _

/-- The items after the first, each on a line of its own. -/
theorem lexes_spreadItems {vs : List Json}
    (h : ∀ v ∈ vs, ∀ level, Lexes (spread level v) (tokensOf v)) (level : Nat)
    (htext : Separated text) (hrest : Lexes text ts) :
    Lexes (spreadItems level vs ++ text) (itemTokens vs ++ ts) := by
  induction vs with
  | nil => exact hrest
  | cons v vs ih =>
    obtain ⟨hv, hvs⟩ := List.forall_mem_cons.1 h
    rw [spreadItems, itemTokens, List.cons_append, List.append_assoc, List.append_assoc,
      List.cons_append, List.append_assoc]
    exact .mark rfl (lexes_newline level
      ((hv level).append (separated_spreadItems level vs htext) (ih hvs)))

/-- The fields after the first, each on a line of its own. -/
theorem lexes_spreadFields {fs : List (String × Json)}
    (h : ∀ f ∈ fs, ∀ level, Lexes (spread level f.2) (tokensOf f.2)) (level : Nat)
    (htext : Separated text) (hrest : Lexes text ts) :
    Lexes (spreadFields level fs ++ text) (fieldTokens fs ++ ts) := by
  induction fs with
  | nil => exact hrest
  | cons f fs ih =>
    obtain ⟨hf, hfs⟩ := List.forall_mem_cons.1 h
    obtain ⟨k, v⟩ := f
    have hvalue := (hf level).append (separated_spreadFields level fs htext) (ih hfs)
    have hfield := Lexes.mark (c := ',') rfl
      (lexes_newline level (lexes_key k (.blank (c := ' ') rfl hvalue)))
    simpa [spreadFields, fieldTokens] using hfield

/-- **What is spread over lines is a text of the value.** -/
theorem lexes_spread {v : Json} (h : Writable v) (level : Nat) :
    Lexes (spread level v) (tokensOf v) := by
  induction h generalizing level with
  | null => exact lexes_lexeme .null
  | bool b =>
    cases b with
    | true => exact lexes_lexeme .true
    | false => exact lexes_lexeme .false
  | num h => exact lexes_lexeme h
  | str s => exact lexes_lexeme (lexeme_literal s)
  | @arr items _ ih =>
    match items, ih with
    | [], _ => exact .mark rfl (.mark rfl .nil)
    | v :: vs, ih =>
      obtain ⟨hv, hvs⟩ := List.forall_mem_cons.1 ih
      have hend : Lexes (newline level ++ [']']) [.mark ']'] :=
        lexes_newline level (.mark rfl .nil)
      have hseparated : Separated (newline level ++ [']']) := separated_cons rfl _
      have hitems := lexes_spreadItems hvs (level + 1) hseparated hend
      have hvalue := (hv (level + 1)).append (separated_spreadItems (level + 1) vs hseparated) hitems
      have harr := Lexes.mark (c := '[') rfl (lexes_newline (level + 1) hvalue)
      simpa [spread, tokensOf] using harr
  | @obj fields _ ih =>
    match fields, ih with
    | [], _ => exact .mark rfl (.mark rfl .nil)
    | (k, v) :: fs, ih =>
      obtain ⟨hv, hfs⟩ := List.forall_mem_cons.1 ih
      have hend : Lexes (newline level ++ ['}']) [.mark '}'] :=
        lexes_newline level (.mark rfl .nil)
      have hseparated : Separated (newline level ++ ['}']) := separated_cons rfl _
      have hfields := lexes_spreadFields hfs (level + 1) hseparated hend
      have hvalue := (hv (level + 1)).append (separated_spreadFields (level + 1) fs hseparated) hfields
      have hobj := Lexes.mark (c := '{') rfl
        (lexes_newline (level + 1) (lexes_key k (.blank (c := ' ') rfl hvalue)))
      simpa [spread, tokensOf] using hobj

/-- Without blanks it is the comma that separates. -/
theorem separated_denseItems (vs : List Json) (htext : Separated text) :
    Separated (denseItems vs ++ text) := by
  cases vs with
  | nil => exact htext
  | cons v vs => exact separated_cons rfl _

theorem separated_denseFields (fs : List (String × Json)) (htext : Separated text) :
    Separated (denseFields fs ++ text) := by
  match fs with
  | [] => exact htext
  | (_, _) :: _ => exact separated_cons rfl _

/-- The items after the first, without blanks. -/
theorem lexes_denseItems {vs : List Json} (h : ∀ v ∈ vs, Lexes (dense v) (tokensOf v))
    (htext : Separated text) (hrest : Lexes text ts) :
    Lexes (denseItems vs ++ text) (itemTokens vs ++ ts) := by
  induction vs with
  | nil => exact hrest
  | cons v vs ih =>
    obtain ⟨hv, hvs⟩ := List.forall_mem_cons.1 h
    have hitem := Lexes.mark (c := ',') rfl
      (hv.append (separated_denseItems vs htext) (ih hvs))
    simpa [denseItems, itemTokens] using hitem

/-- The fields after the first, without blanks. -/
theorem lexes_denseFields {fs : List (String × Json)}
    (h : ∀ f ∈ fs, Lexes (dense f.2) (tokensOf f.2)) (htext : Separated text)
    (hrest : Lexes text ts) : Lexes (denseFields fs ++ text) (fieldTokens fs ++ ts) := by
  induction fs with
  | nil => exact hrest
  | cons f fs ih =>
    obtain ⟨hf, hfs⟩ := List.forall_mem_cons.1 h
    obtain ⟨k, v⟩ := f
    have hfield := Lexes.mark (c := ',') rfl
      (lexes_key k (hf.append (separated_denseFields fs htext) (ih hfs)))
    simpa [denseFields, fieldTokens] using hfield

/-- **What is written without blanks is a text of the value.** -/
theorem lexes_dense {v : Json} (h : Writable v) : Lexes (dense v) (tokensOf v) := by
  induction h with
  | null => exact lexes_lexeme .null
  | bool b =>
    cases b with
    | true => exact lexes_lexeme .true
    | false => exact lexes_lexeme .false
  | num h => exact lexes_lexeme h
  | str s => exact lexes_lexeme (lexeme_literal s)
  | @arr items _ ih =>
    match items, ih with
    | [], _ => exact .mark rfl (.mark rfl .nil)
    | v :: vs, ih =>
      obtain ⟨hv, hvs⟩ := List.forall_mem_cons.1 ih
      have hseparated : Separated [']'] := separated_cons rfl _
      have hitems := lexes_denseItems hvs hseparated (.mark rfl .nil)
      have harr := Lexes.mark (c := '[') rfl
        (hv.append (separated_denseItems vs hseparated) hitems)
      simpa [dense, tokensOf] using harr
  | @obj fields _ ih =>
    match fields, ih with
    | [], _ => exact .mark rfl (.mark rfl .nil)
    | (k, v) :: fs, ih =>
      obtain ⟨hv, hfs⟩ := List.forall_mem_cons.1 ih
      have hseparated : Separated ['}'] := separated_cons rfl _
      have hfields := lexes_denseFields hfs hseparated (.mark rfl .nil)
      have hobj := Lexes.mark (c := '{') rfl
        (lexes_key k (hv.append (separated_denseFields fs hseparated) hfields))
      simpa [dense, tokensOf] using hobj

end Printer

/-- The text without blanks is a text of the value. -/
theorem isText_compact {v : Json} (h : Writable v) : IsText v.compact v := by
  rw [IsText, compact, String.toList_ofList]
  exact Printer.lexes_dense h

end Json

end HazardTrace
