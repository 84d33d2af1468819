/-
VmProbe/Proofs/Text/Json.lean

The compact text of a document tells the document.

    x.compact = y.compact  ↔  x = y

The first character tells whether it is a number, a string, an array or an object
(`exists_chars`).  The end is told by the text and the one character behind it: a number goes as
far as there are digits, and all else closes itself.  This is what `Delimited` says of a writer, and
a list with commas between what delimited writers wrote is told by its closing bracket
(`separated_inj`).

A string closes itself because a quote inside of it is always escaped, and the characters can be
read back because no escape is the beginning of another (`escapeChar_append_inj`).
-/
import VmProbe.Proofs.Text.Hex
import VmProbe.Proofs.Text.Words
import VmProbe.Text.Json

namespace VmProbe.Text.Json

variable {α : Type} {c c' a a' : Char} {t t' w w' v v' cs cs' : List Char} {s s' : String}

/-! ### Characters inside of strings -/

/-- The characters that are escaped by a letter, each with its letter. -/
def letters : List (Char × Char) :=
  [('"', '"'), ('\\', '\\'), ('\x08', 'b'), ('\x0c', 'f'), ('\n', 'n'), ('\r', 'r'), ('\t', 't')]

/-- What stands behind the backslash for a character. -/
inductive Escape : Char → List Char → Prop
  | letter {c l : Char} : (c, l) ∈ letters → Escape c [l]
  | codePoint {c : Char} : c.toNat < 32 → Escape c ('u' :: fixedHexDigits .lower 4 c.toNat)

/-- A character stands for itself or as an escape. -/
theorem escapeChar_cases (c : Char) :
    (escapeChar c = [c] ∧ c ≠ '"' ∧ c ≠ '\\') ∨ ∃ w, escapeChar c = '\\' :: w ∧ Escape c w := by
  rw [escapeChar]
  -- the branches of the writer, in its order
  split_ifs with hquote hbackslash hb hf hn hr ht hcontrol
  · exact .inr ⟨_, rfl, .letter (by rw [hquote]; decide)⟩
  · exact .inr ⟨_, rfl, .letter (by rw [hbackslash]; decide)⟩
  · exact .inr ⟨_, rfl, .letter (by rw [hb]; decide)⟩
  · exact .inr ⟨_, rfl, .letter (by rw [hf]; decide)⟩
  · exact .inr ⟨_, rfl, .letter (by rw [hn]; decide)⟩
  · exact .inr ⟨_, rfl, .letter (by rw [hr]; decide)⟩
  · exact .inr ⟨_, rfl, .letter (by rw [ht]; decide)⟩
  · exact .inr ⟨_, rfl, .codePoint hcontrol⟩
  · exact .inl ⟨rfl, hquote, hbackslash⟩

theorem letters_inj : ∀ p ∈ letters, ∀ q ∈ letters, p.2 = q.2 → p.1 = q.1 := by decide

theorem ne_u_of_mem_letters : ∀ p ∈ letters, p.2 ≠ 'u' := by decide

/-- No escape is the beginning of another one. -/
theorem Escape.append_inj (h : Escape c w) (h' : Escape c' w') (htext : w ++ t = w' ++ t') :
    c = c' ∧ t = t' := by
  cases h with
  | letter hl =>
    cases h' with
    | letter hl' =>
      obtain ⟨hletter, htail⟩ := List.cons.inj htext
      exact ⟨letters_inj _ hl _ hl' hletter, htail⟩
    | codePoint => exact absurd (List.cons.inj htext).1 (ne_u_of_mem_letters _ hl)
  | codePoint hc =>
    cases h' with
    | letter hl' => exact absurd (List.cons.inj htext).1.symm (ne_u_of_mem_letters _ hl')
    | codePoint hc' =>
      have hlength : (fixedHexDigits .lower 4 c.toNat).length =
          (fixedHexDigits .lower 4 c'.toNat).length := by
        rw [length_fixedHexDigits, length_fixedHexDigits]
      obtain ⟨hdigits, htail⟩ := List.append_inj (List.cons.inj htext).2 hlength
      have hmod := fixedHexDigits_inj hdigits
      rw [Nat.mod_eq_of_lt (by omega), Nat.mod_eq_of_lt (by omega)] at hmod
      exact ⟨Char.toNat_inj.1 hmod, htail⟩

/-- A character can be told from the beginning of a text. -/
theorem escapeChar_append_inj (h : escapeChar c ++ t = escapeChar c' ++ t') : c = c' ∧ t = t' := by
  rcases escapeChar_cases c with ⟨hself, -, hb⟩ | ⟨w, hescape, hw⟩ <;>
    rcases escapeChar_cases c' with ⟨hself', -, hb'⟩ | ⟨w', hescape', hw'⟩
  · rw [hself, hself'] at h
    exact List.cons.inj h
  · rw [hself, hescape'] at h
    exact absurd (List.cons.inj h).1 hb
  · rw [hescape, hself'] at h
    exact absurd (List.cons.inj h).1.symm hb'
  · rw [hescape, hescape'] at h
    exact hw.append_inj hw' (List.cons.inj h).2

theorem escapeChar_append_ne_quote : escapeChar c ++ t ≠ '"' :: t' := by
  intro h
  rcases escapeChar_cases c with ⟨hself, hquote, -⟩ | ⟨w, hescape, -⟩
  · rw [hself] at h
    exact hquote (List.cons.inj h).1
  · rw [hescape] at h
    cases (List.cons.inj h).1

/-- The characters of a string can be told up to the quote that closes it. -/
theorem escaped_inj (h : cs.flatMap escapeChar ++ '"' :: v = cs'.flatMap escapeChar ++ '"' :: v') :
    cs = cs' ∧ v = v' := by
  induction cs generalizing cs' with
  | nil =>
    rcases cs' with - | ⟨c', cs'⟩
    · exact ⟨rfl, (List.cons.inj h).2⟩
    · rw [List.flatMap_cons, List.append_assoc] at h
      exact absurd h.symm escapeChar_append_ne_quote
  | cons c cs ih =>
    rw [List.flatMap_cons, List.append_assoc] at h
    rcases cs' with - | ⟨c', cs'⟩
    · exact absurd h escapeChar_append_ne_quote
    · rw [List.flatMap_cons, List.append_assoc] at h
      obtain ⟨rfl, htail⟩ := escapeChar_append_inj h
      obtain ⟨rfl, hrest⟩ := ih htail
      exact ⟨rfl, hrest⟩

theorem toList_quote (s : String) :
    (quote s).toList = '"' :: (s.toList.flatMap escapeChar ++ ['"']) := by
  rw [quote, String.toList_ofList]
  rfl

/-- A string can be told from the beginning of a text. -/
theorem quote_append_inj (h : (quote s).toList ++ v = (quote s').toList ++ v') :
    s = s' ∧ v = v' := by
  rw [toList_quote, toList_quote, List.cons_append, List.cons_append, List.append_assoc,
    List.append_assoc] at h
  obtain ⟨hchars, hrest⟩ := escaped_inj (List.cons.inj h).2
  exact ⟨String.toList_inj.1 hchars, hrest⟩

/-! ### Lists with commas -/

/-- The end of what was written can be told when a character follows that is no digit. -/
def Delimited (write : α → List Char) (x : α) : Prop :=
  ∀ ⦃y : α⦄ ⦃a a' : Char⦄ ⦃v v' : List Char⦄, a.isDigit = false → a'.isDigit = false →
    write x ++ a :: v = write y ++ a' :: v' → x = y ∧ a = a' ∧ v = v'

/-- What was written, with a comma between two. -/
def separated (write : α → List Char) (xs : List α) : List Char :=
  [','].intercalate (xs.map write)

theorem separated_singleton (write : α → List Char) (x : α) : separated write [x] = write x :=
  List.intercalate_singleton

theorem separated_cons_cons (write : α → List Char) (x y : α) (xs : List α) :
    separated write (x :: y :: xs) = write x ++ ',' :: separated write (y :: xs) := by
  rw [separated, List.map_cons, List.map_cons, List.intercalate_cons_cons, List.append_assoc]
  rfl

/-- What closes a list: a character that neither stands between two items nor begins one. -/
structure Closes (write : α → List Char) (close : Char) : Prop where
  ne_comma : close ≠ ','
  isDigit_eq : close.isDigit = false
  not_begins : ∀ x v v', write x ++ v ≠ close :: v'

/-- A list begins with its first item. -/
theorem exists_separated_cons (write : α → List Char) (x : α) (xs : List α) :
    ∃ t, separated write (x :: xs) = write x ++ t := by
  rcases xs with - | ⟨y, xs⟩
  · exact ⟨[], by rw [separated_singleton, List.append_nil]⟩
  · exact ⟨_, separated_cons_cons write x y xs⟩

/-- A list that has an item does not begin with what closes it. -/
theorem Closes.not_begins_separated {write : α → List Char} {close : Char}
    (hclose : Closes write close) (x : α) (xs : List α) :
    separated write (x :: xs) ++ v ≠ close :: v' := by
  obtain ⟨t, ht⟩ := exists_separated_cons write x xs
  rw [ht, List.append_assoc]
  exact hclose.not_begins x _ _

/-- **Items can be told up to the character that closes them.** -/
theorem separated_inj {write : α → List Char} {close : Char} (hclose : Closes write close)
    {xs ys : List α} (hxs : ∀ x ∈ xs, Delimited write x)
    (h : separated write xs ++ close :: v = separated write ys ++ close :: v') :
    xs = ys ∧ v = v' := by
  have hcomma : ','.isDigit = false := rfl
  induction xs generalizing ys with
  | nil =>
    rcases ys with - | ⟨y, ys⟩
    · exact ⟨rfl, (List.cons.inj h).2⟩
    · exact absurd h.symm (hclose.not_begins_separated y ys)
  | cons x xs ih =>
    obtain ⟨hx, hxs⟩ := List.forall_mem_cons.1 hxs
    rcases ys with - | ⟨y, ys⟩
    · exact absurd h (hclose.not_begins_separated x xs)
    -- a list goes on exactly if a comma follows its first item
    rcases xs with - | ⟨x', xs⟩ <;> rcases ys with - | ⟨y', ys⟩ <;>
      simp only [separated_singleton, separated_cons_cons, List.append_assoc,
        List.cons_append] at h
    · obtain ⟨rfl, -, hrest⟩ := hx hclose.isDigit_eq hclose.isDigit_eq h
      exact ⟨rfl, hrest⟩
    · exact absurd (hx hclose.isDigit_eq hcomma h).2.1 hclose.ne_comma
    · exact absurd (hx hcomma hclose.isDigit_eq h).2.1.symm hclose.ne_comma
    · obtain ⟨rfl, -, htail⟩ := hx hcomma hcomma h
      obtain ⟨hitems, hrest⟩ := ih hxs htail
      exact ⟨congrArg (x :: ·) hitems, hrest⟩

/-! ### Documents -/

/-- Induction over a document, with the hypothesis for all items and the values of all fields. -/
@[elab_as_elim]
theorem induction_on_items {P : Json → Prop} (number : ∀ n, P (.number n))
    (string : ∀ s, P (.string s)) (array : ∀ items, (∀ x ∈ items, P x) → P (.array items))
    (object : ∀ fields : List (String × Json), (∀ f ∈ fields, P f.2) → P (.object fields)) :
    ∀ x, P x
  | .number n => number n
  | .string s => string s
  | .array items => array items fun x _ => induction_on_items number string array object x
  | .object fields => object fields fun f _ => induction_on_items number string array object f.2
termination_by x => sizeOf x
decreasing_by
  · decreasing_tactic
  · next hf =>
    have hfields := List.sizeOf_lt_of_mem hf
    obtain ⟨k, x⟩ := f
    simp only [Json.object.sizeOf_spec, Prod.mk.sizeOf_spec] at hfields ⊢
    omega

/-- The characters of a document. -/
def chars (x : Json) : List Char := x.compact.toList

/-- The characters of a field. -/
def fieldChars (f : String × Json) : List Char := (quote f.1).toList ++ ':' :: f.2.chars

theorem toList_compactItems : ∀ xs, (compactItems xs).toList = separated chars xs
  | [] => rfl
  | [x] => by rw [compactItems, separated_singleton, chars]
  | x :: y :: rest => by
    rw [compactItems, String.toList_append, String.toList_append, toList_compactItems (y :: rest),
      separated_cons_cons, List.append_assoc]
    rfl

theorem toList_compactFields : ∀ fs, (compactFields fs).toList = separated fieldChars fs
  | [] => rfl
  | [(k, x)] => by
    rw [compactFields, separated_singleton, String.toList_append, String.toList_append,
      List.append_assoc]
    rfl
  | (k, x) :: y :: rest => by
    rw [compactFields, String.toList_append, toList_compactFields (y :: rest), separated_cons_cons]
    simp only [String.toList_append, List.append_assoc]
    simp [fieldChars, chars]

theorem chars_number (n : ℕ) : (number n).chars = Nat.toDigits 10 n := by
  rw [chars, compact, Nat.toString_eq_ofList_toDigits, String.toList_ofList]

theorem toList_enclosed (opening : Char) (text : String) (closing : Char) :
    (enclosed opening text closing).toList = opening :: (text.toList ++ [closing]) := by
  rw [enclosed, String.toList_append, String.toList_append, String.toList_singleton,
    String.toList_singleton]
  rfl

theorem chars_array (xs : List Json) : (array xs).chars = '[' :: (separated chars xs ++ [']']) := by
  rw [chars, compact, toList_enclosed, toList_compactItems]

theorem chars_object (fs : List (String × Json)) :
    (object fs).chars = '{' :: (separated fieldChars fs ++ ['}']) := by
  rw [chars, compact, toList_enclosed, toList_compactFields]

/-- The character that a document begins with, one digit for all of them. -/
def opening : Json → Char
  | number _ => '0'
  | string _ => '"'
  | array _ => '['
  | object _ => '{'

/-- The first character tells the kind of document. -/
theorem exists_chars (x : Json) :
    ∃ c t, x.chars = c :: t ∧ (if c.isDigit then '0' else c) = x.opening := by
  cases x with
  | number n =>
    rw [chars_number]
    rcases hdigits : Nat.toDigits 10 n with - | ⟨c, t⟩
    · exact absurd hdigits Nat.toDigits_ne_nil
    · have hc : c.isDigit := Nat.isDigit_of_mem_toDigits (by decide) (by decide)
        (hdigits ▸ List.mem_cons_self)
      exact ⟨c, t, rfl, if_pos hc⟩
  | string s => exact ⟨'"', _, toList_quote s, rfl⟩
  | array xs => exact ⟨'[', _, chars_array xs, rfl⟩
  | object fs => exact ⟨'{', _, chars_object fs, rfl⟩

theorem opening_eq_of_append {x y : Json} (h : x.chars ++ v = y.chars ++ v') :
    x.opening = y.opening := by
  obtain ⟨c, t, hx, hc⟩ := exists_chars x
  obtain ⟨c', t', hy, hc'⟩ := exists_chars y
  rw [hx, hy] at h
  rw [← hc, ← hc', (List.cons.inj h).1]

theorem closes_chars : Closes chars ']' where
  ne_comma := by decide
  isDigit_eq := rfl
  not_begins x v v' h := by
    obtain ⟨c, t, hx, hc⟩ := exists_chars x
    rw [hx] at h
    obtain rfl := (List.cons.inj h).1
    cases x <;> cases hc

theorem closes_fieldChars : Closes fieldChars '}' where
  ne_comma := by decide
  isDigit_eq := rfl
  not_begins f v v' h := by
    rw [fieldChars, toList_quote] at h
    cases (List.cons.inj h).1

theorem delimited_fieldChars {f : String × Json} (h : Delimited chars f.2) :
    Delimited fieldChars f := by
  intro g a a' v v' ha ha' htext
  rw [fieldChars, fieldChars, List.append_assoc, List.append_assoc] at htext
  obtain ⟨hkey, hvalue⟩ := quote_append_inj htext
  obtain ⟨hx, hend⟩ := h ha ha' (List.cons.inj hvalue).2
  exact ⟨Prod.ext hkey hx, hend⟩

/-- **The end of a document can be told from the character behind it.**  Two documents of different
kinds do not even begin in the same way. -/
theorem delimited_chars (x : Json) : Delimited chars x := by
  induction x using induction_on_items with
  | number n =>
    intro y a a' v v' ha ha' h
    cases y with
    | number m =>
      rw [chars_number, chars_number] at h
      have hdigits (k : ℕ) : ∀ c ∈ Nat.toDigits 10 k, c.isDigit = true := fun c hc =>
        Nat.isDigit_of_mem_toDigits (by decide) (by decide) hc
      obtain ⟨hrun, hend⟩ := run_inj (hdigits n) (hdigits m) (Bool.not_eq_true _ ▸ ha)
        (Bool.not_eq_true _ ▸ ha') h
      have hvalue := congrArg (Nat.ofDigitChars 10 · 0) hrun
      simp only [Nat.ofDigitChars_ten_toDigits] at hvalue
      exact ⟨congrArg number hvalue, hend⟩
    | _ => cases opening_eq_of_append h
  | string s =>
    intro y a a' v v' _ _ h
    cases y with
    | string s' =>
      obtain ⟨rfl, hend⟩ := quote_append_inj h
      exact ⟨rfl, List.cons.inj hend⟩
    | _ => cases opening_eq_of_append h
  | array xs ih =>
    intro y a a' v v' _ _ h
    cases y with
    | array ys =>
      rw [chars_array, chars_array, List.cons_append, List.cons_append, List.append_assoc,
        List.append_assoc] at h
      obtain ⟨rfl, hend⟩ := separated_inj closes_chars ih (List.cons.inj h).2
      exact ⟨rfl, List.cons.inj hend⟩
    | _ => cases opening_eq_of_append h
  | object fs ih =>
    intro y a a' v v' _ _ h
    cases y with
    | object gs =>
      rw [chars_object, chars_object, List.cons_append, List.cons_append, List.append_assoc,
        List.append_assoc] at h
      have hfs : ∀ f ∈ fs, Delimited fieldChars f := fun f hf => delimited_fieldChars (ih f hf)
      obtain ⟨rfl, hend⟩ := separated_inj closes_fieldChars hfs (List.cons.inj h).2
      exact ⟨rfl, List.cons.inj hend⟩
    | _ => cases opening_eq_of_append h

/-- **The compact text tells the document.** -/
theorem compact_inj {x y : Json} : x.compact = y.compact ↔ x = y := by
  refine ⟨fun h => ?_, fun h => h ▸ rfl⟩
  -- a line break after both shows where they end
  have hline : x.chars ++ '\n' :: [] = y.chars ++ '\n' :: [] :=
    congrArg (fun s : String => s.toList ++ ['\n']) h
  exact (delimited_chars x rfl rfl hline).1

end VmProbe.Text.Json
