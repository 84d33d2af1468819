/-
VmProbe/Proofs/Toml/Document.lean

Documents that are written line by line.

A writer puts down blank lines, headers and pairs, each with a line feed (`Line`).  A line with a
bare key and with a value that is read up to its end is taken by the reader in one step
(`statements?_line`), so a document of such lines says what its lines say (`parse?_lines`).

What statements make is simple when tables and keys are new: then nothing is looked up, and the
document has the tables in their order, with their fields (`assemble?_tableStatements`).
-/
import Mathlib
import VmProbe.Proofs.Toml.Quoted
import VmProbe.Proofs.Toml.Scalar
import VmProbe.Toml.Document

namespace VmProbe.Toml

variable {n : ℕ} {c x : Char} {cs t w : List Char} {s key : String}
variable {fields added : Fields} {tables : List (String × Fields)}

/-! ### Words -/

theorem skipBlanks_cons (hc : isBlank c = false) : skipBlanks (c :: t) = c :: t :=
  List.dropWhile_cons_of_neg (by rw [hc]; decide)

section Words

variable {p : Char → Bool}

/-- What begins with a word does not begin with a character that is in no word. -/
theorem append_ne_cons (hcs : ∀ c ∈ cs, p c) (hne : cs ≠ []) (hc : p c = false) (t w : List Char) :
    cs ++ t ≠ c :: w := by
  obtain ⟨x, cs, rfl⟩ := List.exists_cons_of_ne_nil hne
  intro h
  obtain rfl : x = c := (List.cons.inj h).1
  exact ne_cons_of_forall hcs hc cs rfl

/-- There are no blanks to skip before a word. -/
theorem skipBlanks_word (hcs : ∀ c ∈ cs, p c) (hne : cs ≠ []) (hspace : p ' ' = false)
    (htab : p '\t' = false) (t : List Char) : skipBlanks (cs ++ t) = cs ++ t := by
  obtain ⟨x, cs, rfl⟩ := List.exists_cons_of_ne_nil hne
  refine skipBlanks_cons (Bool.eq_false_iff.2 fun hblank => ?_)
  rw [isBlank, Bool.or_eq_true, decide_eq_true_eq, decide_eq_true_eq] at hblank
  rcases hblank with rfl | rfl
  · exact ne_cons_of_forall hcs hspace cs rfl
  · exact ne_cons_of_forall hcs htab cs rfl

end Words

/-! ### Values -/

/-- A text that is read as a value up to the end of its line. -/
structure ReadsAs (text : List Char) (value : Node) : Prop where
  starts : ∀ t, skipBlanks (text ++ '\n' :: t) = text ++ '\n' :: t
  reads : ∀ t, value? depthLimit (text ++ '\n' :: t) = some (value, '\n' :: t)
  uniform : '\r' ∉ text

/-- A text in quotes is read as this text. -/
theorem readsAs_quote (s : String) : ReadsAs (quote s).toList (.string s) where
  starts t := by
    obtain ⟨q, u, hwrite, hq⟩ := exists_write (QuoteForm.choose s.toList) s.toList
    rw [quote, String.toList_ofList, hwrite, List.cons_append]
    rcases hq with rfl | rfl
    · exact skipBlanks_cons rfl
    · exact skipBlanks_cons rfl
  reads t := by
    have hread : quoted? ((quote s).toList ++ '\n' :: t) = some (s.toList, '\n' :: t) :=
      quoted?_quote s (by simp) (by simp)
    obtain ⟨q, u, hwrite, hq⟩ := exists_write (QuoteForm.choose s.toList) s.toList
    rw [quote, String.toList_ofList, hwrite, List.cons_append] at hread ⊢
    rcases hq with rfl | rfl
    · rw [value?, hread, Option.map_some, String.ofList_toList]
    · rw [value?, hread, Option.map_some, String.ofList_toList]
  uniform h := by
    rw [quote, String.toList_ofList] at h
    rcases plain_of_mem_write (shows_choose s.toList) _ h with hplain | hbreak
    · cases hplain
    · cases hbreak

/-- A number that fits is read from its digits. -/
theorem readsAs_toDigits (hn : (n : ℤ) ≤ Int64.maxValue.toInt) :
    ReadsAs (Nat.toDigits 10 n) (.integer n) := by
  have hdigits : ∀ c ∈ Nat.toDigits 10 n, c.isDigit := fun c hc =>
    Nat.isDigit_of_mem_toDigits (by decide) (by decide) hc
  refine ⟨fun t => ?starts, fun t => ?reads, fun h => ?uniform⟩
  case starts => exact skipBlanks_word hdigits Nat.toDigits_ne_nil rfl rfl ('\n' :: t)
  case reads =>
    have hfirst {c : Char} {w : List Char} (hc : c.isDigit = false) :
        Nat.toDigits 10 n ++ '\n' :: t ≠ c :: w :=
      append_ne_cons hdigits Nat.toDigits_ne_nil hc _ w
    unfold value?
    split
    · next h => exact absurd h (hfirst rfl)
    · next h => exact absurd h (hfirst rfl)
    · next h => exact absurd h (hfirst rfl)
    · next h => exact absurd h (hfirst rfl)
    · rw [word_digits hdigits]
      show (scalar? (Nat.toDigits 10 n)).map _ = _
      rw [scalar?_toDigits hn]
      rfl
  case uniform => cases hdigits _ h

/-! ### Keys -/

/-- A name that may stand as a key without quotes. -/
def IsBareKey (s : String) : Prop := s.toList ≠ [] ∧ ∀ c ∈ s.toList, isBare c

instance (s : String) : Decidable (IsBareKey s) :=
  decidable_of_iff (s.toList ≠ [] ∧ s.toList.all isBare) (and_congr_right fun _ => List.all_eq_true)

theorem IsBareKey.keyPart? (hs : IsBareKey s) (hc : isBare c = false) (t : List Char) :
    Toml.keyPart? (s.toList ++ c :: t) = some (s, c :: t) := by
  have hbare : (s.toList ++ c :: t).takeWhile isBare = s.toList := by
    rw [List.takeWhile_append_of_pos hs.2, List.takeWhile_cons_of_neg (by rw [hc]; decide),
      List.append_nil]
  have hafter : (s.toList ++ c :: t).dropWhile isBare = c :: t := by
    rw [List.dropWhile_append_of_pos hs.2, List.dropWhile_cons_of_neg (by rw [hc]; decide)]
  unfold Toml.keyPart?
  split
  · next h => exact absurd h (append_ne_cons hs.2 hs.1 rfl _ _)
  · next h => exact absurd h (append_ne_cons hs.2 hs.1 rfl _ _)
  · rw [hbare, hafter]
    exact (if_neg hs.1).trans (by rw [String.ofList_toList])

/-- A key of one part is read up to what cannot belong to it. -/
theorem IsBareKey.key? (hs : IsBareKey s) (hc : isBare c = false)
    (ht : skipBlanks (c :: t) = x :: w) (hdot : x ≠ '.') (k : ℕ) :
    Toml.key? (k + 1) (s.toList ++ c :: t) = some (([], s), x :: w) := by
  rw [Toml.key?, skipBlanks_word hs.2 hs.1 rfl rfl, hs.keyPart? hc, Option.bind_some, ht]
  split
  · next h => exact absurd (List.cons.inj h).1 hdot
  · rfl

/-! ### Lines -/

/-- A line as a writer puts it down; the text of a value stands there with what it means. -/
inductive Line
  | blank
  | header (name : String)
  | pair (key : String) (text : List Char) (value : Node)

/-- The characters of a line. -/
def Line.chars : Line → List Char
  | blank => ['\n']
  | header name => '[' :: (name.toList ++ [']', '\n'])
  | pair key text _ => key.toList ++ ' ' :: '=' :: ' ' :: (text ++ ['\n'])

/-- What a line says. -/
def Line.statement? : Line → Option Statement
  | blank => none
  | header name => some (.header ⟨false, [], name⟩)
  | pair key _ value => some (.pair ⟨[], key, value⟩)

/-- Whether a reader can take a line. -/
def Line.Readable : Line → Prop
  | blank => True
  | header name => IsBareKey name
  | pair key text value => IsBareKey key ∧ ReadsAs text value

/-- A reader takes one line at a time. -/
theorem statements?_line {l : Line} (h : l.Readable) (n : ℕ) (t : List Char) :
    statements? (n + 1) (l.chars ++ t) =
      (statements? n t).map (l.statement?.toList ++ ·) := by
  cases l with
  | blank =>
    show statements? n t = (statements? n t).map id
    rw [Option.map_id, id]
  | header name =>
    have hkey : key? depthLimit (name.toList ++ ']' :: '\n' :: t) =
        some (([], name), ']' :: '\n' :: t) := h.key? rfl rfl (by decide) 78
    have hheader : header? (name.toList ++ ']' :: '\n' :: t) =
        some (⟨false, [], name⟩, '\n' :: t) := by
      unfold header?
      split
      · next hnext => exact absurd hnext (append_ne_cons h.2 h.1 rfl _ _)
      · rw [hkey]
        rfl
    have hchars : (Line.header name).chars ++ t = '[' :: (name.toList ++ ']' :: '\n' :: t) := by
      simp [Line.chars]
    rw [hchars]
    show (header? (name.toList ++ ']' :: '\n' :: t)).bind _ = _
    rw [hheader]
    rfl
  | pair key text value =>
    obtain ⟨hbare, hread⟩ := h
    have hkey : key? depthLimit (key.toList ++ ' ' :: '=' :: ' ' :: (text ++ '\n' :: t)) =
        some (([], key), '=' :: ' ' :: (text ++ '\n' :: t)) := hbare.key? rfl rfl (by decide) 78
    have hvalue : value? depthLimit (skipBlanks (' ' :: (text ++ '\n' :: t))) =
        some (value, '\n' :: t) := by
      show value? depthLimit (skipBlanks (text ++ '\n' :: t)) = _
      rw [hread.starts, hread.reads]
    have hpair : pair? (value? depthLimit)
        (key.toList ++ ' ' :: '=' :: ' ' :: (text ++ '\n' :: t)) =
          some (⟨[], key, value⟩, '\n' :: t) := by
      rw [pair?, hkey]
      show (value? depthLimit (skipBlanks (' ' :: (text ++ '\n' :: t)))).map _ = _
      rw [hvalue]
      rfl
    have hchars : (Line.pair key text value).chars ++ t =
        key.toList ++ ' ' :: '=' :: ' ' :: (text ++ '\n' :: t) := by
      simp [Line.chars]
    rw [hchars, statements?, skipBlanks_word hbare.2 hbare.1 rfl rfl]
    -- no other line begins with a character of a key
    split
    · next h => exact absurd h (List.append_ne_nil_of_left_ne_nil hbare.1 _)
    · next h => exact absurd h (append_ne_cons hbare.2 hbare.1 rfl _ _)
    · next h => exact absurd h (append_ne_cons hbare.2 hbare.1 rfl _ _)
    · next h => exact absurd h (append_ne_cons hbare.2 hbare.1 rfl _ _)
    · rw [hpair]
      rfl

/-- A reader takes all lines one after another. -/
theorem statements?_lines {lines : List Line} (h : ∀ l ∈ lines, l.Readable)
    (hn : lines.length < n) :
    statements? n (lines.flatMap Line.chars) = some (lines.filterMap Line.statement?) := by
  induction lines generalizing n with
  | nil =>
    obtain ⟨n, rfl⟩ := Nat.exists_eq_add_of_lt hn
    rfl
  | cons l lines ih =>
    obtain ⟨hl, hlines⟩ := List.forall_mem_cons.1 h
    obtain ⟨n, rfl⟩ := Nat.exists_eq_add_of_lt hn
    have hnext : statements? (lines.length + 1 + n) (lines.flatMap Line.chars) =
        some (lines.filterMap Line.statement?) := ih hlines (by omega)
    rw [List.flatMap_cons, List.length_cons, statements?_line hl, hnext, Option.map_some,
      List.filterMap_cons]
    rcases l.statement? with - | said
    · rfl
    · rfl

/-! ### Whole documents -/

theorem unifyBreaks?_eq (h : '\r' ∉ cs) : unifyBreaks? cs = some cs := by
  fun_induction unifyBreaks? cs with
  | case1 => rfl
  | case2 rest ih => exact absurd List.mem_cons_self h
  | case3 rest _ => exact absurd List.mem_cons_self h
  | case4 c rest _ hc ih =>
    rw [ih (List.not_mem_of_not_mem_cons h)]
    rfl

/-- A readable line has a first character, which is no byte order mark, and no carriage return. -/
theorem Line.Readable.chars {l : Line} (h : l.Readable) :
    (∃ c t, l.chars = c :: t ∧ c ≠ '\uFEFF') ∧ '\r' ∉ l.chars := by
  have hbare {s : String} (hs : IsBareKey s) : '\r' ∉ s.toList := fun hmem => by cases hs.2 _ hmem
  cases l with
  | blank => exact ⟨⟨'\n', [], rfl, by decide⟩, by decide⟩
  | header name =>
    refine ⟨⟨'[', _, rfl, by decide⟩, ?_⟩
    simp [Line.chars, hbare h]
  | pair key text value =>
    obtain ⟨c, w, hw⟩ := List.exists_cons_of_ne_nil h.1.1
    refine ⟨⟨c, w ++ ' ' :: '=' :: ' ' :: (text ++ ['\n']), ?_, ?_⟩, ?_⟩
    · rw [Line.chars, hw]
      rfl
    · rintro rfl
      cases h.1.2 '\uFEFF' (hw ▸ List.mem_cons_self)
    · simp [Line.chars, hbare h.1, h.2.uniform]

/-- **A document of readable lines says what its lines say.** -/
theorem parse?_lines {lines : List Line} (h : ∀ l ∈ lines, l.Readable) :
    parse? (String.ofList (lines.flatMap Line.chars)) =
      assemble? (lines.filterMap Line.statement?) := by
  have hmark : dropMark (lines.flatMap Line.chars) = lines.flatMap Line.chars := by
    rcases lines with - | ⟨l, lines⟩
    · rfl
    · obtain ⟨⟨c, t, hchars, hc⟩, -⟩ := (h l List.mem_cons_self).chars
      rw [List.flatMap_cons, hchars]
      refine dropMark.eq_2 _ fun rest hrest => hc (List.cons.inj hrest).1
  have hbreaks : '\r' ∉ lines.flatMap Line.chars := by
    intro hmem
    obtain ⟨l, hl, hchar⟩ := List.mem_flatMap.1 hmem
    exact (h l hl).chars.2 hchar
  have hlength : lines.length ≤ (lines.flatMap Line.chars).length := by
    rw [List.length_flatMap, ← List.length_map fun l : Line => l.chars.length]
    refine List.length_le_sum_of_one_le _ (List.forall_mem_map.2 fun l hl => ?_)
    obtain ⟨⟨c, t, hchars, -⟩, -⟩ := (h l hl).chars
    rw [hchars]
    exact Nat.succ_pos t.length
  rw [parse?, String.toList_ofList, hmark, unifyBreaks?_eq hbreaks, Option.bind_some,
    statements?_lines h (Nat.lt_succ_of_le hlength), Option.bind_some]

/-! ### Tables -/

/-- Fields as pairs with undotted keys. -/
def pairsOf (fields : Fields) : List Pair := fields.map fun f => ⟨[], f.1, f.2⟩

/-- The statements that make one table after another. -/
def tableStatements (tables : List (String × Fields)) : List Statement :=
  tables.flatMap fun t => .header ⟨false, [], t.1⟩ :: (pairsOf t.2).map .pair

/-- The tables of a document under their names. -/
def tableFields (tables : List (String × Fields)) : Fields :=
  tables.map fun t => (t.1, .table .written t.2)

theorem blocks_pairs (ps : List Pair) (said : List Statement) :
    blocks (ps.map .pair ++ said) = (ps ++ (blocks said).1, (blocks said).2) := by
  induction ps with
  | nil => rfl
  | cons p ps ih =>
    rw [List.map_cons, List.cons_append, blocks, ih]
    rfl

theorem blocks_tableStatements (tables : List (String × Fields)) :
    blocks (tableStatements tables) =
      ([], tables.map fun t => (⟨false, [], t.1⟩, pairsOf t.2)) := by
  induction tables with
  | nil => rfl
  | cons t tables ih =>
    rw [tableStatements, List.flatMap_cons, List.cons_append, blocks, ← tableStatements,
      blocks_pairs, ih, List.append_nil, List.map_cons]

theorem find?_eq_none (h : key ∉ fields.map Prod.fst) : find? key fields = none := by
  have hnone : fields.find? (fun f => f.1 = key) = none := by
    refine List.find?_eq_none.2 fun f hf hkey => h ?_
    exact of_decide_eq_true hkey ▸ List.mem_map_of_mem hf
  rw [find?, hnone]
  rfl

theorem assign_new (h : key ∉ fields.map Prod.fst) (value : Node) :
    assign [] key value (.table .written fields) =
      some (.table .written (fields ++ [(key, value)])) := by
  have horigin : ¬ (Origin.written = .dotted ↔ ([] : List String) = []) := by decide
  show (if (Origin.written = .dotted ↔ ([] : List String) = []) then none
    else if (find? key fields).isSome then none else _) = _
  rw [if_neg horigin, find?_eq_none h]
  rfl

/-- Fields with new keys are added one after another. -/
theorem assignAll_new (h : ((fields ++ added).map Prod.fst).Nodup) :
    assignAll (pairsOf added) (.table .written fields) =
      some (.table .written (fields ++ added)) := by
  induction added generalizing fields with
  | nil => rw [List.append_nil, pairsOf, List.map_nil, assignAll]
  | cons f added ih =>
    have hkey : f.1 ∉ fields.map Prod.fst := by
      rw [List.map_append, List.map_cons] at h
      exact fun hmem => List.disjoint_of_nodup_append h hmem List.mem_cons_self
    have hfront : fields ++ f :: added = (fields ++ [f]) ++ added := by
      rw [List.append_assoc]
      rfl
    rw [hfront] at h ⊢
    rw [pairsOf, List.map_cons, assignAll, assign_new hkey, Option.bind_some]
    exact ih h

theorem define_new (h : key ∉ fields.map Prod.fst) (hadded : (added.map Prod.fst).Nodup) :
    define ⟨false, [], key⟩ (pairsOf added) (.table .written fields) =
      some (.table .written (fields ++ [(key, .table .written added)])) := by
  have hinner : assignAll (pairsOf added) (.table .written []) = some (.table .written added) :=
    assignAll_new hadded
  simp only [define, alter, find?_eq_none h, hinner, Option.map_some]

/-- Tables with new names are added one after another. -/
theorem defineAll_new
    (h : ((fields ++ tableFields tables).map Prod.fst).Nodup)
    (hadded : ∀ t ∈ tables, (t.2.map Prod.fst).Nodup) :
    defineAll (tables.map fun t => (⟨false, [], t.1⟩, pairsOf t.2)) (.table .written fields) =
      some (.table .written (fields ++ tableFields tables)) := by
  induction tables generalizing fields with
  | nil => rw [tableFields, List.map_nil, List.map_nil, List.append_nil, defineAll]
  | cons t tables ih =>
    obtain ⟨ht, htables⟩ := List.forall_mem_cons.1 hadded
    have hname : t.1 ∉ fields.map Prod.fst := by
      rw [List.map_append] at h
      exact fun hmem => List.disjoint_of_nodup_append h hmem List.mem_cons_self
    have hfront : fields ++ tableFields (t :: tables) =
        (fields ++ [(t.1, .table .written t.2)]) ++ tableFields tables := by
      rw [List.append_assoc]
      rfl
    rw [hfront] at h ⊢
    rw [List.map_cons, defineAll, define_new hname ht, Option.bind_some]
    exact ih h htables

/-- **Tables with different names and different keys each make the document of these tables.** -/
theorem assemble?_tableStatements (h : (tables.map Prod.fst).Nodup)
    (hadded : ∀ t ∈ tables, (t.2.map Prod.fst).Nodup) :
    assemble? (tableStatements tables) = some (tableFields tables) := by
  have hnames : (([] ++ tableFields tables).map Prod.fst).Nodup := by
    rw [List.nil_append, tableFields, List.map_map]
    exact h
  rw [assemble?, blocks_tableStatements]
  dsimp only
  rw [assignAll, Option.bind_some, defineAll_new hnames hadded]
  rfl

end VmProbe.Toml
