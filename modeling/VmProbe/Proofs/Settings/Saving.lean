/-
VmProbe/Proofs/Settings/Saving.lean

Saved settings are loaded again, whatever they are.

The text of the settings file is a document of readable lines (`save?_eq`, `readable_lines`), whose
tables hold every value there is (`parse?_text`).  Nothing in it is left to a default but the
timeout, whose absence is also what is read where it is missing (`ofFields?_tables`).

A time beyond the integers of the format is the only thing that cannot be written.  Then the file
that was made for the text stays empty:

    save fails  ↔  some time is greater than 2 ^ 63 - 1
-/
import Mathlib
import VmProbe.Proofs.Files.Tree
import VmProbe.Proofs.Text.Utf8
import VmProbe.Proofs.Toml.Document
import VmProbe.Settings.Files

namespace VmProbe.Settings

open Files (Tree)
open Toml (IsBareKey Line tableFields tableStatements)

variable {s : Settings} {t created : Tree} {path content : String} {time : UInt64}

/-! ### The document -/

/-- The times of the settings. -/
def times (s : Settings) : List UInt64 := s.server.timeout.toList ++ [s.session.retryInterval]

/-- A time as a line. -/
def lineOf (key : String) (time : UInt64) : Line :=
  .pair key (Nat.toDigits 10 time.toNat) (.integer time.toNat)

/-- The lines of the settings file. -/
def lines (s : Settings) : List Line :=
  .header "server" :: .pair "url" (Toml.quote s.server.url).toList (.string s.server.url) ::
    (s.server.timeout.toList.map (lineOf "request_timeout_ms") ++
      [.blank, .header "session", lineOf "retry_interval_ms" s.session.retryInterval])

/-- The tables of the settings file. -/
def tables (s : Settings) : List (String × Toml.Fields) :=
  [("server", ("url", .string s.server.url) ::
      s.server.timeout.toList.map fun time => ("request_timeout_ms", .integer time.toNat)),
    ("session", [("retry_interval_ms", .integer s.session.retryInterval.toNat)])]

/-- The text of the settings file. -/
def text (s : Settings) : String := String.ofList ((lines s).flatMap Line.chars)

theorem toList_timeLine (key : String) (time : UInt64) :
    (timeLine key time).toList = (lineOf key time).chars := by
  rw [timeLine, Nat.toString_eq_ofList_toDigits]
  simp [lineOf, Line.chars]

/-- The settings can be written exactly when every time fits. -/
theorem save?_eq (s : Settings) :
    s.save? = if ∀ time ∈ s.times, time.toNat ≤ timeLimit then some s.text else none := by
  have htimes : (s.server.timeout.all writable && writable s.session.retryInterval) =
      decide (∀ time ∈ s.times, time.toNat ≤ timeLimit) := by
    rcases h : s.server.timeout with - | time
    · simp [times, h, writable]
    · simp [times, h, writable]
  rw [save?, htimes]
  by_cases h : ∀ time ∈ s.times, time.toNat ≤ timeLimit
  · rw [if_pos (decide_eq_true h), if_pos h]
    refine congrArg some (String.toList_inj.1 ?_)
    rw [text, String.toList_ofList, lines]
    rcases s.server.timeout with - | time
    · simp [Line.chars, toList_timeLine]
    · simp [Line.chars, toList_timeLine]
  · rw [if_neg (mt of_decide_eq_true h), if_neg h]

/-- What the lines say makes the tables. -/
theorem filterMap_lines (s : Settings) :
    (lines s).filterMap Line.statement? = tableStatements (tables s) := by
  rw [lines, tables]
  rcases s.server.timeout with - | time
  · rfl
  · rfl

theorem readable_lineOf {key : String} (hkey : IsBareKey key) (htime : time.toNat ≤ timeLimit) :
    (lineOf key time).Readable := by
  have hfits : (time.toNat : ℤ) ≤ Int64.maxValue.toInt := by
    show (time.toNat : ℤ) ≤ (timeLimit : ℕ)
    exact_mod_cast htime
  exact ⟨hkey, Toml.readsAs_toDigits hfits⟩

theorem readable_lines (h : ∀ time ∈ s.times, time.toNat ≤ timeLimit) :
    ∀ l ∈ lines s, l.Readable := by
  obtain ⟨htimeout, hretry⟩ := List.forall_mem_append.1 h
  have hserver : IsBareKey "server" := by decide
  have hurl : IsBareKey "url" := by decide
  have htimeoutKey : IsBareKey "request_timeout_ms" := by decide
  have hsession : IsBareKey "session" := by decide
  have hretryKey : IsBareKey "retry_interval_ms" := by decide
  refine List.forall_mem_cons.2 ⟨hserver, List.forall_mem_cons.2 ⟨⟨hurl, ?_⟩, ?_⟩⟩
  · exact Toml.readsAs_quote s.server.url
  · refine List.forall_mem_append.2 ⟨List.forall_mem_map.2 fun time htime => ?_, ?_⟩
    · exact readable_lineOf htimeoutKey (htimeout time htime)
    · refine List.forall_mem_cons.2 ⟨trivial, List.forall_mem_cons.2 ⟨hsession, ?_⟩⟩
      exact List.forall_mem_singleton.2
        (readable_lineOf hretryKey (hretry _ (List.mem_singleton_self _)))

/-- The text is a document with these tables. -/
theorem parse?_text (h : ∀ time ∈ s.times, time.toNat ≤ timeLimit) :
    Toml.parse? s.text = some (tableFields (tables s)) := by
  have hnames : ((tables s).map Prod.fst).Nodup := by
    show ["server", "session"].Nodup
    decide
  have hkeys : ∀ t ∈ tables s, (t.2.map Prod.fst).Nodup := by
    refine List.forall_mem_cons.2 ⟨?_, List.forall_mem_singleton.2 ?_⟩
    · rcases s.server.timeout with - | time
      · show ["url"].Nodup
        decide
      · show ["url", "request_timeout_ms"].Nodup
        decide
    · show ["retry_interval_ms"].Nodup
      decide
  rw [text, Toml.parse?_lines (readable_lines h), filterMap_lines,
    Toml.assemble?_tableStatements hnames hkeys]

/-! ### Loading -/

theorem readTime?_integer (time : UInt64) :
    readTime? (some (.integer time.toNat)) = some (some time) := by
  rw [readTime?, if_pos (Int.natCast_nonneg _), Int.toNat_natCast, UInt64.ofNat_toNat]

theorem readServer_tables (s : Settings) :
    readServer (Toml.find? "server" (tableFields (tables s))) = some s.server := by
  obtain ⟨⟨url, timeout⟩, session⟩ := s
  rcases timeout with - | time
  · rfl
  · show ((readTime? (some (.integer time.toNat))).map fun timeout =>
      (⟨url, timeout⟩ : Server)) = _
    rw [readTime?_integer]
    rfl

theorem readOpening_tables (s : Settings) :
    readOpening (Toml.find? "session" (tableFields (tables s))) = some s.session := by
  obtain ⟨server, ⟨retry⟩⟩ := s
  show ((readTime? (some (.integer retry.toNat))).map fun time =>
    (⟨time.getD Opening.default.retryInterval⟩ : Opening)) = _
  rw [readTime?_integer]
  rfl

/-- The tables tell the settings. -/
theorem ofFields?_tables (s : Settings) : ofFields? (tableFields (tables s)) = some s := by
  rw [ofFields?, readServer_tables, Option.bind_some, readOpening_tables]
  rfl

/-- The text is loaded as the settings. -/
theorem load_text (h : ∀ time ∈ s.times, time.toNat ≤ timeLimit) :
    load (Text.encode s.text) = .ok s := by
  have hdecode : Text.decode? (Text.encode s.text) = some s.text :=
    Text.decode?_eq_some_iff.2 rfl
  rw [load, hdecode]
  dsimp only
  rw [parse?_text h, Option.bind_some, ofFields?_tables]

/-! ### Saving to a file -/

/-- The directories of a file can be made and the file can be made empty; this is the tree then. -/
def Creates (t : Tree) (path : String) (created : Tree) : Prop :=
  ∃ made, makeParent t path = (.ok (), made) ∧ made.write path [] = .ok created

theorem saveTo_of_some (h : Creates t path created) (hsave : s.save? = some content) :
    ∃ written, saveTo t path s = (.ok (), written) ∧
      written.find path = .ok (.file (Text.encode content)) := by
  obtain ⟨made, hparent, hempty⟩ := h
  obtain ⟨written, hwritten⟩ := Tree.exists_write_of_write hempty (Text.encode content)
  refine ⟨written, ?_, Tree.find_write hwritten⟩
  rw [saveTo, hparent]
  dsimp only
  rw [hempty, hsave]
  dsimp only
  rw [hwritten]

theorem saveTo_of_none (h : Creates t path created) (hsave : s.save? = none) :
    saveTo t path s = (.error .saving, created) := by
  obtain ⟨made, hparent, hempty⟩ := h
  rw [saveTo, hparent]
  dsimp only
  rw [hempty, hsave]

/-- **Saved settings are loaded again.**  Whatever the address is, settings whose times fit into the
integers of the format have a text, which is loaded as these settings, also from the file that it is
saved to.  If a time is too large, nothing is written, and the file that was made stays empty. -/
theorem load_save (s : Settings) :
    ((∀ time ∈ s.times, time.toNat ≤ 2 ^ 63 - 1) →
      ∃ content, s.save? = some content ∧ load (Text.encode content) = .ok s ∧
        ∀ t path created, Creates t path created →
          ∃ written, saveTo t path s = (.ok (), written) ∧
            written.contents path = .ok (Text.encode content) ∧ loadFrom written path = .ok s) ∧
    ((∃ time ∈ s.times, 2 ^ 63 - 1 < time.toNat) →
      s.save? = none ∧
        ∀ t path created, Creates t path created →
          (saveTo t path s).1.mapError FilesError.chain =
              .error (["saving config", "serialising config"], none) ∧
            (saveTo t path s).2 = created ∧ created.contents path = .ok []) := by
  constructor
  · intro h
    have hfits : ∀ time ∈ s.times, time.toNat ≤ timeLimit := h
    have hsave : s.save? = some s.text := by
      rw [save?_eq, if_pos hfits]
    refine ⟨s.text, hsave, load_text hfits, fun t path created hcreates => ?_⟩
    obtain ⟨written, hwritten, hfind⟩ := saveTo_of_some hcreates hsave
    refine ⟨written, hwritten, ?_, ?_⟩
    · rw [Tree.contents, hfind]
      rfl
    · rw [loadFrom, hfind]
      show ((load (Text.encode s.text)).mapError ContentError.ofLoad).mapError _ = _
      rw [load_text hfits]
      rfl
  · rintro ⟨time, htime, hlarge⟩
    have hsave : s.save? = none := by
      rw [save?_eq, if_neg fun hfits => Nat.not_lt.2 (hfits time htime) hlarge]
    refine ⟨hsave, fun t path created hcreates => ?_⟩
    rw [saveTo_of_none hcreates hsave]
    refine ⟨rfl, rfl, ?_⟩
    obtain ⟨made, -, hempty⟩ := hcreates
    rw [Tree.contents, Tree.find_write hempty]
    rfl

/-- An address with both quotes, a backslash, a line break and a control character comes back; a
time of `2 ^ 63` is refused, and the file is there and empty. -/
theorem load_save_awkward :
    (∃ content, save? ⟨⟨"'\"\\\n\x01", none⟩, ⟨0⟩⟩ = some content ∧
      load (Text.encode content) = .ok ⟨⟨"'\"\\\n\x01", none⟩, ⟨0⟩⟩) ∧
    save? ⟨⟨"", some 9223372036854775808⟩, ⟨0⟩⟩ = none ∧
    (saveTo .empty "/a" ⟨⟨"", some 9223372036854775808⟩, ⟨0⟩⟩).2.contents "/a" = .ok [] := by
  have hcreates : Creates .empty "/a" ⟨[(["a"], .file [])], []⟩ := ⟨.empty, rfl, rfl⟩
  have hlarge : ∃ time ∈ times ⟨⟨"", some 9223372036854775808⟩, ⟨0⟩⟩, 2 ^ 63 - 1 < time.toNat :=
    ⟨9223372036854775808, List.mem_cons_self, by decide⟩
  have hsmall : ∀ time ∈ times ⟨⟨"'\"\\\n\x01", none⟩, ⟨0⟩⟩, time.toNat ≤ 2 ^ 63 - 1 :=
    List.forall_mem_singleton.2 (Nat.zero_le _)
  obtain ⟨content, hsave, hload, -⟩ := (load_save ⟨⟨"'\"\\\n\x01", none⟩, ⟨0⟩⟩).1 hsmall
  obtain ⟨hnone, hfile⟩ := (load_save ⟨⟨"", some 9223372036854775808⟩, ⟨0⟩⟩).2 hlarge
  obtain ⟨-, hcreated, hempty⟩ := hfile .empty "/a" _ hcreates
  refine ⟨⟨content, hsave, hload⟩, hnone, ?_⟩
  rw [hcreated, hempty]

end VmProbe.Settings
