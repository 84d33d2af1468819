/-
VmProbe/Proofs/Toml/Quoted.lean

Quoted strings are read back.

A writer picks a form that can show the text (`shows_choose`), and whatever form can show a text
is read as this text when no further quote follows:

    form.Shows cs  →  quoted? (form.write cs ++ rest) = some (cs, rest)

Two things need care.  An escape must be taken for one character, also in the long form, where a
backslash may fold lines; `escapeBasic_cases` says that all escapes written are escapes in both
forms.  And in the long forms a run of quotes belongs to the text only as far as three of them do
not end it.  There the induction on the text carries the length of the run that was written last:
as long as it is at most two, its quotes are read when the next character is known
(`ReadsRuns.read_run`), or they stand before the closing three (`ReadsRuns.read_closing`).

A quoted string holds no other control characters than line feeds (`plain_of_mem_write`), so it
may stand in a document.
-/
import Mathlib
import VmProbe.Proofs.Text.Hex
import VmProbe.Toml.Quoted

namespace VmProbe.Toml

variable {c q x : Char} {cs rest t u w : List Char} {form : QuoteForm} {long : Bool}
variable {allowed run k : ℕ} {read : List Char → Option (List Char × List Char)}

/-! ### Escapes -/

/-- A code point in four digits is read back, for the characters of the first plane. -/
theorem escape?_codePoint (hc : c.toNat < 16 ^ 4) (t : List Char) :
    escape? ('u' :: Text.fixedHexDigits .upper 4 c.toNat ++ t) = some (c, t) := by
  have hlength : (Text.fixedHexDigits .upper 4 c.toNat).length = 4 := Text.length_fixedHexDigits
  have htake : (Text.fixedHexDigits .upper 4 c.toNat ++ t).take 4 =
      Text.fixedHexDigits .upper 4 c.toNat := List.take_left' hlength
  have hdrop : (Text.fixedHexDigits .upper 4 c.toNat ++ t).drop 4 = t := List.drop_left' hlength
  have hvalid : c.toNat.isValidChar := c.valid
  have hpoint : codePoint? (Text.fixedHexDigits .upper 4 c.toNat) = some c := by
    rw [codePoint?, Text.readDigits?_fixedHexDigits, Option.bind_some, Nat.mul_zero, Nat.zero_add,
      Nat.mod_eq_of_lt hc, if_pos hvalid, Char.ofNat_toNat]
  have henough : ¬ (Text.fixedHexDigits .upper 4 c.toNat ++ t).length < 4 := by
    rw [List.length_append, hlength]
    omega
  show (if (Text.fixedHexDigits .upper 4 c.toNat ++ t).length < 4 then none
    else (codePoint? ((Text.fixedHexDigits .upper 4 c.toNat ++ t).take 4)).map fun x =>
      (x, (Text.fixedHexDigits .upper 4 c.toNat ++ t).drop 4)) = _
  rw [if_neg henough, htake, hdrop, hpoint]
  rfl

theorem isPlain_of_mem_fixedHexDigits {n : ℕ} (h : x ∈ Text.fixedHexDigits .upper k n) :
    isPlain x := by
  have htable : ∀ d < 16, isPlain (Text.hexDigit .upper d) := by decide
  obtain ⟨d, hd, rfl⟩ := Text.exists_hexDigit_of_mem h
  exact htable d hd

/-- An escape that a basic string of either form reads as a character. -/
structure Escapes (w : List Char) (c : Char) : Prop where
  read : ∀ t, escape? (w ++ t) = some (c, t)
  stays : ∀ t, foldLine? (w ++ t) = none
  plain : ∀ x ∈ w, isPlain x

theorem escapes_letter (hread : escapeLetter? x = some c) (hblank : isBlank x = false)
    (hbreak : x ≠ '\n') (hplain : isPlain x) : Escapes [x] c where
  read t := by
    show escape? (x :: t) = some (c, t)
    rw [escape?, hread]
  stays t := by
    have hfirst : (x :: t).dropWhile isBlank = x :: t :=
      List.dropWhile_cons_of_neg (by rw [hblank]; decide)
    show foldLine? (x :: t) = none
    rw [foldLine?, hfirst]
    split
    · next h => exact absurd (List.cons.inj h).1 hbreak
    · rfl
  plain := List.forall_mem_singleton.2 hplain

/-- A character stands for itself or as an escape. -/
theorem escapeBasic_cases (long : Bool) (c : Char) :
    (escapeBasic long c = [c] ∧ c ≠ '\\' ∧ (isPlain c ∨ long = true ∧ c = '\n')) ∨
      ∃ w, escapeBasic long c = '\\' :: w ∧ Escapes w c := by
  rw [escapeBasic]
  -- the branches of the writer, in its order
  split_ifs with hb ht hn hlong hf hr hbackslash hplain
  · exact .inr ⟨['b'], rfl, escapes_letter (by rw [hb]; rfl) rfl (by decide) rfl⟩
  · exact .inr ⟨['t'], rfl, escapes_letter (by rw [ht]; rfl) rfl (by decide) rfl⟩
  · exact .inl ⟨by rw [hn], by rw [hn]; decide, .inr ⟨hlong, hn⟩⟩
  · exact .inr ⟨['n'], rfl, escapes_letter (by rw [hn]; rfl) rfl (by decide) rfl⟩
  · exact .inr ⟨['f'], rfl, escapes_letter (by rw [hf]; rfl) rfl (by decide) rfl⟩
  · exact .inr ⟨['r'], rfl, escapes_letter (by rw [hr]; rfl) rfl (by decide) rfl⟩
  · exact .inr ⟨['\\'], rfl, escapes_letter (by rw [hbackslash]; rfl) rfl (by decide) rfl⟩
  · exact .inl ⟨rfl, hbackslash, .inl hplain⟩
  · have hpoint : c.toNat < 16 ^ 4 := by
      simp only [isPlain, Bool.or_eq_true, decide_eq_true_eq, Bool.and_eq_true, ht,
        false_or] at hplain
      omega
    refine .inr ⟨_, rfl, escape?_codePoint hpoint, fun t => rfl, ?_⟩
    exact List.forall_mem_cons.2 ⟨rfl, fun x hx => isPlain_of_mem_fixedHexDigits hx⟩

/-- What is written for a character other than a quote does not begin with a quote. -/
theorem exists_escapeBasic (long : Bool) (hc : c ≠ '"') :
    ∃ x w, escapeBasic long c = x :: w ∧ x ≠ '"' := by
  rcases escapeBasic_cases long c with ⟨hself, -, -⟩ | ⟨w, hescape, -⟩
  · exact ⟨c, [], hself, hc⟩
  · exact ⟨'\\', w, hescape, by decide⟩

/-! ### Basic strings -/

theorem basicText?_escape (h : escape? t = some (c, rest)) :
    basicText? ('\\' :: t) = consText c (basicText? rest) := by
  rw [basicText?, if_neg (by decide), if_pos rfl]
  split
  · next hnone => cases h.symm.trans hnone
  · next hsome =>
    cases h.symm.trans hsome
    rfl

theorem basicText?_escapeBasic (hc : c ≠ '"') (t : List Char) :
    basicText? (escapeBasic false c ++ t) = consText c (basicText? t) := by
  rcases escapeBasic_cases false c with ⟨hself, hb, hplain | ⟨hlong, -⟩⟩ | ⟨w, hescape, hw⟩
  · rw [hself]
    show basicText? (c :: t) = _
    rw [basicText?, if_neg hc, if_neg hb, if_pos hplain]
  · cases hlong
  · rw [hescape]
    exact basicText?_escape (hw.read t)

/-- The inside of a basic string is read back. -/
theorem basicText?_writeBasic (cs rest : List Char) :
    basicText? (writeBasic false 0 0 cs ++ '"' :: rest) = some (cs, rest) := by
  induction cs with
  | nil =>
    show basicText? ('"' :: rest) = _
    rw [basicText?, if_pos rfl]
  | cons c cs ih =>
    rw [writeBasic]
    by_cases hc : c = '"'
    · subst hc
      rw [if_pos rfl, if_neg (Nat.lt_irrefl 0)]
      show basicText? ('\\' :: '"' :: (writeBasic false 0 0 cs ++ '"' :: rest)) = _
      rw [basicText?_escape rfl, ih]
      rfl
    · rw [if_neg hc, List.append_assoc, basicText?_escapeBasic hc, ih]
      rfl

/-! ### Literal strings -/

/-- The inside of a literal string is read back. -/
theorem literalText?_append (hcs : ∀ c ∈ cs, isPlain c ∧ c ≠ '\'') (rest : List Char) :
    literalText? (cs ++ '\'' :: rest) = some (cs, rest) := by
  induction cs with
  | nil => rfl
  | cons c cs ih =>
    obtain ⟨⟨hplain, hquote⟩, htail⟩ := List.forall_mem_cons.1 hcs
    rw [List.cons_append, literalText?, if_neg hquote, if_pos hplain, ih htail]
    rfl

/-! ### Runs of quotes -/

theorem replicate_append_cons (k : ℕ) (q : Char) (t : List Char) :
    List.replicate k q ++ q :: t = List.replicate (k + 1) q ++ t := by
  rw [List.replicate_succ', List.append_assoc]
  rfl

theorem exists_of_startsWithThree (h : startsWithThree q u) : ∃ t, u = q :: q :: q :: t := by
  rcases u with - | ⟨a, - | ⟨b, - | ⟨c, t⟩⟩⟩
  · cases h
  · cases h
  · cases h
  · simp only [startsWithThree, Bool.and_eq_true, decide_eq_true_eq] at h
    obtain ⟨⟨rfl, rfl⟩, rfl⟩ := h
    exact ⟨t, rfl⟩

/-- At most two quotes are not three. -/
theorem startsWithThree_run (hk : k ≤ 2) (ht : t.head? ≠ some q) :
    startsWithThree q (List.replicate k q ++ t) = false := by
  refine Bool.eq_false_iff.2 fun h => ht ?_
  obtain ⟨u, hu⟩ := exists_of_startsWithThree h
  interval_cases k
  · obtain rfl : t = q :: q :: q :: u := hu
    rfl
  · obtain rfl : t = q :: q :: u := List.tail_eq_of_cons_eq hu
    rfl
  · obtain rfl : t = q :: u := List.tail_eq_of_cons_eq (List.tail_eq_of_cons_eq hu)
    rfl

theorem not_startsWithThree (hx : x ≠ q) : ¬ startsWithThree q (x :: t) := by
  have hfew : startsWithThree q (List.replicate 0 q ++ x :: t) = false :=
    startsWithThree_run (Nat.zero_le 2) fun h => hx (Option.some.inj h)
  exact Bool.eq_false_iff.1 hfew

/-- The quotes before the closing three, when these were taken from the front of the run. -/
theorem closing_run (hk : k ≤ 2) (ht : t.head? ≠ some q) :
    closing q (List.replicate k q ++ t) = (List.replicate k q, t) := by
  interval_cases k
  · rcases t with - | ⟨a, - | ⟨b, t⟩⟩
    · rfl
    · exact if_neg fun ha => ht (congrArg some ha)
    · have ha : a ≠ q := fun ha => ht (congrArg some ha)
      simp [closing, ha]
  · rcases t with - | ⟨a, t⟩
    · exact if_pos rfl
    · have ha : a ≠ q := fun ha => ht (congrArg some ha)
      simp [closing, ha]
  · exact if_pos ⟨rfl, rfl⟩

/-- A reader of a string in a long form: three quotes end it, and up to there a quote is a
character like others. -/
structure ReadsRuns (q : Char) (read : List Char → Option (List Char × List Char)) : Prop where
  three : ∀ t, read (q :: q :: q :: t) = some (closing q t)
  quote : ∀ t, startsWithThree q (q :: t) = false → read (q :: t) = consText q (read t)

/-- Quotes before another character are read when they are at most two. -/
theorem ReadsRuns.read_run (h : ReadsRuns q read) (hk : k ≤ 2) (ht : t.head? ≠ some q) :
    read (List.replicate k q ++ t) = (read t).map fun y => (List.replicate k q ++ y.1, y.2) := by
  induction k with
  | zero => exact (congrFun Option.map_id (read t)).symm
  | succ k ih =>
    have hfew : startsWithThree q (q :: (List.replicate k q ++ t)) = false :=
      startsWithThree_run hk ht
    rw [List.replicate_succ, List.cons_append, h.quote _ hfew, ih (Nat.le_of_succ_le hk), consText,
      Option.map_map]
    rfl

/-- Quotes before the closing three are read when they are at most two. -/
theorem ReadsRuns.read_closing (h : ReadsRuns q read) (hk : k ≤ 2) (ht : t.head? ≠ some q) :
    read (List.replicate k q ++ q :: q :: q :: t) = some (List.replicate k q, t) := by
  have hfront : List.replicate k q ++ q :: q :: q :: t =
      q :: q :: q :: (List.replicate k q ++ t) := by
    interval_cases k <;> rfl
  rw [hfront, h.three]
  exact congrArg some (closing_run hk ht)

/-! ### Basic strings over several lines -/

theorem readsRuns_longBasicText? : ReadsRuns '"' longBasicText? where
  three t := by
    have hthree : startsWithThree '"' ('"' :: '"' :: '"' :: t) := rfl
    rw [longBasicText?, if_pos hthree]
    rfl
  quote t ht := by
    have hfew : ¬ startsWithThree '"' ('"' :: t) := Bool.eq_false_iff.1 ht
    rw [longBasicText?, if_neg hfew, if_neg (by decide), if_pos (.inl rfl)]

theorem longBasicText?_escape (hstays : foldLine? t = none) (h : escape? t = some (c, rest)) :
    longBasicText? ('\\' :: t) = consText c (longBasicText? rest) := by
  rw [longBasicText?, if_neg (not_startsWithThree (by decide)), if_pos rfl]
  split
  · next hfold => cases hstays.symm.trans hfold
  · split
    · next hnone => cases h.symm.trans hnone
    · next hsome =>
      cases h.symm.trans hsome
      rfl

theorem longBasicText?_escapeBasic (hc : c ≠ '"') (t : List Char) :
    longBasicText? (escapeBasic true c ++ t) = consText c (longBasicText? t) := by
  rcases escapeBasic_cases true c with ⟨hself, hb, hplain⟩ | ⟨w, hescape, hw⟩
  · rw [hself]
    show longBasicText? (c :: t) = _
    rw [longBasicText?, if_neg (not_startsWithThree hc), if_neg hb,
      if_pos (hplain.imp_right And.right)]
  · rw [hescape]
    exact longBasicText?_escape (hw.stays t) (hw.read t)

/-- The inside of a basic string over several lines is read back, with the quotes that were
written right before it. -/
theorem longBasicText?_writeBasic (hrun : run ≤ 2) (hrest : rest.head? ≠ some '"')
    (cs : List Char) :
    longBasicText? (List.replicate run '"' ++
      (writeBasic true 2 run cs ++ '"' :: '"' :: '"' :: rest)) =
        some (List.replicate run '"' ++ cs, rest) := by
  induction cs generalizing run with
  | nil =>
    rw [List.append_nil]
    exact readsRuns_longBasicText?.read_closing hrun hrest
  | cons c cs ih =>
    have hnext : longBasicText? (writeBasic true 2 0 cs ++ '"' :: '"' :: '"' :: rest) =
        some (cs, rest) := ih (Nat.zero_le 2)
    rw [writeBasic]
    by_cases hc : c = '"'
    · subst hc
      rw [if_pos rfl]
      split_ifs with hfew
      · -- the quote makes the run longer
        rw [List.cons_append, replicate_append_cons, replicate_append_cons]
        exact ih hfew
      · -- the quote is escaped, and the run ends
        have hstop : ('\\' :: '"' :: writeBasic true 2 0 cs ++
            '"' :: '"' :: '"' :: rest).head? ≠ some '"' := by
          simp
        rw [readsRuns_longBasicText?.read_run hrun hstop]
        show (longBasicText? ('\\' :: '"' :: (writeBasic true 2 0 cs ++ _))).map _ = _
        rw [longBasicText?_escape rfl rfl, hnext]
        rfl
    · obtain ⟨x, w, hw, hx⟩ := exists_escapeBasic true hc
      have hstop : (escapeBasic true c ++ (writeBasic true 2 0 cs ++
          '"' :: '"' :: '"' :: rest)).head? ≠ some '"' := by
        rw [hw]
        simpa using hx
      rw [if_neg hc, List.append_assoc, readsRuns_longBasicText?.read_run hrun hstop,
        longBasicText?_escapeBasic hc, hnext]
      rfl

/-! ### Literal strings over several lines -/

theorem readsRuns_longLiteralText? : ReadsRuns '\'' longLiteralText? where
  three t := by
    have hthree : startsWithThree '\'' ('\'' :: '\'' :: '\'' :: t) := rfl
    rw [longLiteralText?, if_pos hthree]
    rfl
  quote t ht := by
    have hfew : ¬ startsWithThree '\'' ('\'' :: t) := Bool.eq_false_iff.1 ht
    rw [longLiteralText?, if_neg hfew, if_pos (.inl rfl)]

/-- The inside of a literal string over several lines is read back, with the quotes that stand
right before it. -/
theorem longLiteralText?_append (hcs : ∀ c ∈ cs, isPlain c ∨ c = '\n')
    (hrun : longestRun '\'' run cs ≤ 2) (hrest : rest.head? ≠ some '\'') :
    longLiteralText? (List.replicate run '\'' ++ (cs ++ '\'' :: '\'' :: '\'' :: rest)) =
      some (List.replicate run '\'' ++ cs, rest) := by
  induction cs generalizing run with
  | nil =>
    rw [List.append_nil]
    exact readsRuns_longLiteralText?.read_closing hrun hrest
  | cons c cs ih =>
    obtain ⟨hplain, htail⟩ := List.forall_mem_cons.1 hcs
    rw [longestRun] at hrun
    split_ifs at hrun with hc
    · subst hc
      rw [List.cons_append, replicate_append_cons, replicate_append_cons]
      exact ih htail hrun
    · obtain ⟨hfew, hnext⟩ := max_le_iff.1 hrun
      have hread := ih htail hnext
      have hstop : (c :: (cs ++ '\'' :: '\'' :: '\'' :: rest)).head? ≠ some '\'' := by
        simpa using hc
      rw [List.cons_append, readsRuns_longLiteralText?.read_run hfew hstop, longLiteralText?,
        if_neg (not_startsWithThree hc), if_pos hplain]
      rw [List.replicate_zero, List.nil_append, List.nil_append] at hread
      rw [hread]
      rfl

/-! ### The form of a string -/

/-- Whether a form can show a text. -/
def QuoteForm.Shows : QuoteForm → List Char → Prop
  | .basic, _ => True
  | .literal, cs => ∀ c ∈ cs, isPlain c ∧ c ≠ '\''
  | .longBasic, _ => True
  | .longLiteral, cs => (∀ c ∈ cs, isPlain c ∨ c = '\n') ∧ longestRun '\'' 0 cs ≤ 2

theorem le_longestRun (q : Char) (run : ℕ) (cs : List Char) : run ≤ longestRun q run cs := by
  induction cs generalizing run with
  | nil => exact le_rfl
  | cons c cs ih =>
    rw [longestRun]
    split_ifs
    · exact Nat.le_of_succ_le (ih (run + 1))
    · exact le_max_left _ _

theorem not_mem_of_longestRun (h : longestRun q run cs = 0) : q ∉ cs := by
  induction cs generalizing run with
  | nil => exact List.not_mem_nil
  | cons c cs ih =>
    rw [longestRun] at h
    split_ifs at h with hc
    · have hrun := le_longestRun q (run + 1) cs
      omega
    · have hnext : longestRun q 0 cs = 0 := Nat.le_zero.1 ((le_max_right _ _).trans_eq h)
      exact fun hmem => (List.mem_cons.1 hmem).elim (fun heq => hc heq.symm) (ih hnext)

theorem plain_of_not_needsEscape (h : ¬ cs.any needsEscape) : ∀ c ∈ cs, isPlain c ∨ c = '\n' := by
  intro c hc
  by_contra hnot
  obtain ⟨hplain, hbreak⟩ := not_or.1 hnot
  have hescape : needsEscape c := by
    rw [needsEscape, Bool.eq_false_iff.2 hplain]
    exact decide_eq_true hbreak
  exact h (List.any_eq_true.2 ⟨c, hc, hescape⟩)

/-- **The form that is chosen for a text can show it.** -/
theorem shows_choose (cs : List Char) : (QuoteForm.choose cs).Shows cs := by
  rw [QuoteForm.choose]
  split_ifs with hbasic hliteral hlong hlongLiteral hbreaks
  · trivial
  · simp only [Bool.and_eq_true, Bool.not_eq_true', decide_eq_true_eq] at hliteral
    obtain ⟨⟨hescapes, hsingles⟩, hbreaks⟩ := hliteral
    intro c hc
    refine ⟨(plain_of_not_needsEscape (Bool.eq_false_iff.1 hescapes) c hc).resolve_right ?_, ?_⟩
    · rintro rfl
      exact Bool.eq_false_iff.1 hbreaks (List.contains_iff_mem.2 hc)
    · rintro rfl
      exact not_mem_of_longestRun hsingles hc
  · trivial
  · simp only [Bool.and_eq_true, Bool.not_eq_true', decide_eq_true_eq] at hlongLiteral
    exact ⟨plain_of_not_needsEscape (Bool.eq_false_iff.1 hlongLiteral.1), hlongLiteral.2⟩
  · trivial
  · trivial

/-! ### Whole strings -/

theorem mem_writeBasic (h : x ∈ writeBasic long allowed run cs) :
    isPlain x ∨ x = '\n' ∧ '\n' ∈ cs := by
  induction cs generalizing run with
  | nil => cases h
  | cons c cs ih =>
    have hnext {r : ℕ} (h : x ∈ writeBasic long allowed r cs) :
        isPlain x ∨ x = '\n' ∧ '\n' ∈ c :: cs :=
      (ih h).imp_right (And.imp_right (List.mem_cons_of_mem c))
    rw [writeBasic] at h
    split_ifs at h with hc
    · rcases List.mem_cons.1 h with rfl | h
      · exact .inl rfl
      · exact hnext h
    · rcases List.mem_cons.1 h with rfl | h
      · exact .inl rfl
      · rcases List.mem_cons.1 h with rfl | h
        · exact .inl rfl
        · exact hnext h
    · rcases List.mem_append.1 h with h | h
      · rcases escapeBasic_cases long c with ⟨hself, -, hplain⟩ | ⟨w, hescape, hw⟩
        · rw [hself] at h
          obtain rfl := List.mem_singleton.1 h
          refine hplain.imp_right fun hbreak => ⟨hbreak.2, ?_⟩
          rw [hbreak.2]
          exact List.mem_cons_self
        · rw [hescape] at h
          rcases List.mem_cons.1 h with rfl | h
          · exact .inl rfl
          · exact .inl (hw.plain x h)
      · exact hnext h

/-- A quoted string begins with a quote. -/
theorem exists_write (form : QuoteForm) (cs : List Char) :
    ∃ q t, form.write cs = q :: t ∧ (q = '"' ∨ q = '\'') := by
  cases form with
  | basic => exact ⟨'"', _, rfl, .inl rfl⟩
  | literal => exact ⟨'\'', _, rfl, .inr rfl⟩
  | longBasic => exact ⟨'"', _, rfl, .inl rfl⟩
  | longLiteral => exact ⟨'\'', _, rfl, .inr rfl⟩

/-- **A quoted string holds nothing but plain characters and line feeds.** -/
theorem plain_of_mem_write (h : form.Shows cs) : ∀ x ∈ form.write cs, isPlain x ∨ x = '\n' := by
  have hopening : ∀ x ∈ (if cs.contains '\n' then ['\n'] else []), isPlain x ∨ x = '\n' := by
    split_ifs
    · exact List.forall_mem_singleton.2 (.inr rfl)
    · exact List.forall_mem_nil _
  have hwritten (long : Bool) (allowed : ℕ) :
      ∀ x ∈ writeBasic long allowed 0 cs, isPlain x ∨ x = '\n' :=
    fun x hx => (mem_writeBasic hx).imp_right And.left
  have hthree {q : Char} (hq : isPlain q) : ∀ x ∈ [q, q, q], isPlain x ∨ x = '\n' := by
    simp [hq]
  cases form with
  | basic =>
    refine List.forall_mem_append.2 ⟨List.forall_mem_cons.2 ⟨.inl rfl, hwritten _ _⟩, ?_⟩
    exact List.forall_mem_singleton.2 (.inl rfl)
  | literal =>
    refine List.forall_mem_append.2 ⟨List.forall_mem_cons.2 ⟨.inl rfl, fun x hx => ?_⟩, ?_⟩
    · exact .inl (h x hx).1
    · exact List.forall_mem_singleton.2 (.inl rfl)
  | longBasic =>
    refine List.forall_mem_append.2 ⟨List.forall_mem_append.2 ⟨?_, hwritten _ _⟩, hthree rfl⟩
    exact List.forall_mem_append.2 ⟨hthree rfl, hopening⟩
  | longLiteral =>
    refine List.forall_mem_append.2 ⟨List.forall_mem_append.2 ⟨?_, h.1⟩, hthree rfl⟩
    exact List.forall_mem_append.2 ⟨hthree rfl, hopening⟩

/-- The line feed after the opening quotes is dropped, and no other. -/
theorem dropBreak_opening (ht : '\n' ∈ t → '\n' ∈ cs) (hx : x ≠ '\n') :
    dropBreak ((if cs.contains '\n' then ['\n'] else []) ++ (t ++ x :: u)) = t ++ x :: u := by
  split_ifs with hbreak
  · rfl
  · have hfirst : ∀ v, t ++ x :: u ≠ '\n' :: v := by
      intro v hv
      rcases t with - | ⟨y, t⟩
      · exact hx (List.cons.inj hv).1
      · obtain rfl : y = '\n' := (List.cons.inj hv).1
        exact hbreak (List.contains_iff_mem.2 (ht List.mem_cons_self))
    exact dropBreak.eq_2 _ hfirst

theorem quoted?_basic (hrest : rest.head? ≠ some '"') (cs : List Char) :
    quoted? (QuoteForm.basic.write cs ++ rest) = some (cs, rest) := by
  have hfew : startsWithThree '"' ('"' :: (writeBasic false 0 0 cs ++ '"' :: rest)) = false := by
    rcases cs with - | ⟨c, cs⟩
    · exact startsWithThree_run (k := 2) le_rfl hrest
    · refine startsWithThree_run (k := 1) (by decide) ?_
      rw [writeBasic]
      split_ifs with hc
      · cases ‹0 < 0›
      · simp
      · obtain ⟨x, w, hw, hx⟩ := exists_escapeBasic false hc
        rw [hw]
        simpa using hx
  have hwrite : QuoteForm.basic.write cs ++ rest =
      '"' :: (writeBasic false 0 0 cs ++ '"' :: rest) := by
    rw [QuoteForm.write, List.append_assoc]
    rfl
  rw [hwrite, quoted?, if_neg (Bool.eq_false_iff.1 hfew), if_neg (not_startsWithThree (by decide))]
  exact basicText?_writeBasic cs rest

theorem quoted?_literal (hcs : ∀ c ∈ cs, isPlain c ∧ c ≠ '\'') (hrest : rest.head? ≠ some '\'') :
    quoted? (QuoteForm.literal.write cs ++ rest) = some (cs, rest) := by
  have hfew : startsWithThree '\'' ('\'' :: (cs ++ '\'' :: rest)) = false := by
    rcases cs with - | ⟨c, cs⟩
    · exact startsWithThree_run (k := 2) le_rfl hrest
    · refine startsWithThree_run (k := 1) (by decide) ?_
      simpa using (hcs c List.mem_cons_self).2
  have hwrite : QuoteForm.literal.write cs ++ rest = '\'' :: (cs ++ '\'' :: rest) := by
    rw [QuoteForm.write, List.append_assoc]
    rfl
  rw [hwrite, quoted?, if_neg (not_startsWithThree (by decide)), if_neg (Bool.eq_false_iff.1 hfew)]
  exact literalText?_append hcs rest

theorem quoted?_doubles (t : List Char) :
    quoted? ('"' :: '"' :: '"' :: t) = longBasicText? (dropBreak t) := if_pos rfl

theorem quoted?_singles (t : List Char) :
    quoted? ('\'' :: '\'' :: '\'' :: t) = longLiteralText? (dropBreak t) :=
  (if_neg (not_startsWithThree (by decide))).trans (if_pos rfl)

theorem quoted?_longBasic (hrest : rest.head? ≠ some '"') (cs : List Char) :
    quoted? (QuoteForm.longBasic.write cs ++ rest) = some (cs, rest) := by
  have hwrite : QuoteForm.longBasic.write cs ++ rest = '"' :: '"' :: '"' ::
      ((if cs.contains '\n' then ['\n'] else []) ++
        (writeBasic true 2 0 cs ++ '"' :: '"' :: '"' :: rest)) := by
    simp [QuoteForm.write]
  have hbreaks (h : '\n' ∈ writeBasic true 2 0 cs) : '\n' ∈ cs := by
    rcases mem_writeBasic h with hplain | ⟨-, hmem⟩
    · cases hplain
    · exact hmem
  rw [hwrite, quoted?_doubles, dropBreak_opening hbreaks (by decide)]
  exact longBasicText?_writeBasic (Nat.zero_le 2) hrest cs

theorem quoted?_longLiteral (hcs : ∀ c ∈ cs, isPlain c ∨ c = '\n')
    (hruns : longestRun '\'' 0 cs ≤ 2) (hrest : rest.head? ≠ some '\'') :
    quoted? (QuoteForm.longLiteral.write cs ++ rest) = some (cs, rest) := by
  have hwrite : QuoteForm.longLiteral.write cs ++ rest = '\'' :: '\'' :: '\'' ::
      ((if cs.contains '\n' then ['\n'] else []) ++ (cs ++ '\'' :: '\'' :: '\'' :: rest)) := by
    simp [QuoteForm.write]
  rw [hwrite, quoted?_singles, dropBreak_opening id (by decide)]
  exact longLiteralText?_append hcs hruns hrest

/-- **Whatever form can show a text is read back as this text.** -/
theorem quoted?_write (h : form.Shows cs) (hdouble : rest.head? ≠ some '"')
    (hsingle : rest.head? ≠ some '\'') : quoted? (form.write cs ++ rest) = some (cs, rest) := by
  cases form with
  | basic => exact quoted?_basic hdouble cs
  | literal => exact quoted?_literal h hsingle
  | longBasic => exact quoted?_longBasic hdouble cs
  | longLiteral => exact quoted?_longLiteral h.1 h.2 hsingle

/-- **A quoted text is read back.** -/
theorem quoted?_quote (s : String) (hdouble : rest.head? ≠ some '"')
    (hsingle : rest.head? ≠ some '\'') :
    quoted? ((quote s).toList ++ rest) = some (s.toList, rest) := by
  rw [quote, String.toList_ofList]
  exact quoted?_write (shows_choose s.toList) hdouble hsingle

/-- Single quotes rule out the literal form, and the last of the double quotes stands right before
the closing three. -/
example : quote "it's \"so\"" = "\"\"\"it's \"so\"\"\"\"" := by decide +kernel

end VmProbe.Toml
