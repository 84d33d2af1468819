/-
VmProbe/Proofs/Settings/Refusal.lean

What is left of a settings file when other settings cannot be saved to it.

Saving is refused when the settings have no text, which is found out only after the file was made
empty (`saveTo_eq_saving_iff`).  The directories of a file that is there stay as they are
(`makeParent_of_place?`), so the file is all that changes, and what it held is lost:

    contents after  =  contents before   ↔   the file was empty
    settings after  =  settings before   ↔   the file held the default settings
-/
import Mathlib
import VmProbe.Proofs.Files.Directories
import VmProbe.Proofs.Settings.Saving

namespace VmProbe.Settings

open Files (Tree Place)

variable {s : Settings} {t after : Tree} {path : String} {place : Place} {old : List UInt8}

/-! ### The stages of saving -/

/-- Nothing has to be made for a path that leads somewhere. -/
theorem makeParent_of_place? (h : t.place? path = .ok place) : makeParent t path = (.ok (), t) := by
  rw [makeParent]
  rcases hparent : Files.parent? path with - | dir
  · rfl
  · dsimp only
    rw [Tree.makeDirectories_parent h hparent]
    rfl

theorem creates_iff_of_place? (h : t.place? path = .ok place) :
    Creates t path after ↔ t.write path [] = .ok after := by
  rw [Creates, makeParent_of_place? h]
  constructor
  · rintro ⟨made, hmade, hwrite⟩
    rwa [← (Prod.mk.inj hmade).2] at hwrite
  · exact fun hwrite => ⟨t, rfl, hwrite⟩

theorem makeParent_ne_saving (t : Tree) (path : String) :
    (makeParent t path).1 ≠ .error .saving := by
  intro h
  rw [makeParent] at h
  split at h
  · cases h
  · next dir hparent =>
    rcases hmade : t.makeDirectories dir with ⟨e | ⟨⟩, made⟩ <;> rw [hmade] at h
    · cases h
    · cases h

/-- Settings are refused when they have no text, and only after the file was made empty. -/
theorem saveTo_eq_saving_iff :
    saveTo t path s = (.error .saving, after) ↔ s.save? = none ∧ Creates t path after := by
  constructor
  · intro h
    rw [saveTo] at h
    split at h
    · next e made hparent =>
      refine absurd ?_ (makeParent_ne_saving t path)
      rw [hparent, (Prod.mk.inj h).1]
    · next made hparent =>
      split at h
      · cases h
      · next emptied hempty =>
        split at h
        · next hsave =>
          obtain rfl := (Prod.mk.inj h).2
          exact ⟨hsave, made, hparent, hempty⟩
        · split at h
          · cases h
          · cases h
  · rintro ⟨hsave, hcreates⟩
    exact saveTo_of_none hcreates hsave

theorem save?_eq_none_iff : s.save? = none ↔ ∃ time ∈ s.times, 2 ^ 63 - 1 < time.toNat := by
  rw [save?_eq]
  split_ifs with hfits
  · constructor
    · nofun
    · rintro ⟨time, htime, hlarge⟩
      exact absurd (hfits time htime) (Nat.not_le.2 hlarge)
  · push Not at hfits
    exact ⟨fun _ => hfits, fun _ => rfl⟩

/-- A tree stays rooted when settings are saved, and also when they are not. -/
theorem rooted_saveTo (ht : t.Rooted) (path : String) (s : Settings) :
    (saveTo t path s).2.Rooted := by
  have hparent : (makeParent t path).2.Rooted := by
    rw [makeParent]
    rcases Files.parent? path with - | dir
    · exact ht
    · exact ht.ensureAll (Files.ancestors dir)
  rw [saveTo]
  rcases hmade : makeParent t path with ⟨e | ⟨⟩, made⟩ <;> rw [hmade] at hparent
  · exact hparent
  · dsimp only
    rcases hempty : made.write path [] with e | emptied
    · exact hparent
    · have hemptied := hparent.write hempty
      rcases s.save? with - | content
      · exact hemptied
      · dsimp only
        rcases hwritten : emptied.write path (Text.encode content) with e | written
        · exact hemptied
        · exact hemptied.write hwritten

/-! ### Loading again -/

/-- An empty file holds the default settings. -/
theorem load_nil : load [] = .ok default := by
  rfl

theorem loadFrom_of_contents (h : t.contents path = .ok old) :
    loadFrom t path = ((load old).mapError .ofLoad).mapError (.loading path) := by
  rw [loadFrom, Tree.contents_eq_ok_iff.1 h]
  rfl

/-- The default settings are loaded only from a file that holds them. -/
theorem loadFrom_eq_default_iff (h : t.contents path = .ok old) :
    loadFrom t path = .ok default ↔ load old = .ok default := by
  rw [loadFrom_of_contents h]
  rcases load old with e | settings
  · constructor
    · nofun
    · nofun
  · show Except.ok settings = .ok default ↔ _
    rw [Except.ok.injEq, Except.ok.injEq]

/-- **A refused save empties the file.**  With a file under the path, saving is refused for a time
that is too large, also when other settings stood in the file.  Then nothing but this file has
changed, but it is empty and is loaded as the default settings.  So its content is kept exactly when
there was none, and the settings that it is loaded as exactly when they were the default ones. -/
theorem saveTo_refused (h : t.contents path = .ok old) :
    (t.Rooted → ((saveTo t path s).1 = .error .saving ↔
      ∃ time ∈ s.times, 2 ^ 63 - 1 < time.toNat)) ∧
    ∀ after, saveTo t path s = (.error .saving, after) →
      (∃ place, t.place? path = .ok place ∧ after = t.set place (.file [])) ∧
      after.contents path = .ok [] ∧ loadFrom after path = .ok default ∧
      (after.contents path = t.contents path ↔ old = []) ∧
      (loadFrom after path = loadFrom t path ↔ load old = .ok default) := by
  have hfind := Tree.contents_eq_ok_iff.1 h
  obtain ⟨place, hplace, -⟩ := Tree.find_eq_ok_iff.1 hfind
  constructor
  · intro ht
    obtain ⟨emptied, hempty⟩ := ht.write_of_find hfind []
    rw [← save?_eq_none_iff]
    constructor
    · intro hrefused
      exact (saveTo_eq_saving_iff.1 (Prod.ext hrefused rfl)).1
    · intro hsave
      rw [saveTo_of_none ((creates_iff_of_place? hplace).2 hempty) hsave]
  · intro after hrefused
    have hempty := (creates_iff_of_place? hplace).1 (saveTo_eq_saving_iff.1 hrefused).2
    have hcontents : after.contents path = .ok [] :=
      Tree.contents_eq_ok_iff.2 (Tree.find_write hempty)
    have hload : loadFrom after path = .ok default :=
      (loadFrom_eq_default_iff hcontents).2 load_nil
    refine ⟨?_, hcontents, hload, ?_, ?_⟩
    · obtain ⟨place', hplace', -, -, rfl⟩ := Tree.write_eq_ok_iff.1 hempty
      exact ⟨place', hplace', rfl⟩
    · rw [hcontents, h, Except.ok.injEq, eq_comm]
    · rw [hload, eq_comm, loadFrom_eq_default_iff h]

/-- A tree with one file. -/
def oneFile (bytes : List UInt8) : Tree := Tree.empty.set ["c.toml"] (.file bytes)

/-- Settings with a time between two attempts. -/
def withInterval (time : UInt64) : Settings := ⟨⟨"u", none⟩, ⟨time⟩⟩

theorem contents_oneFile (bytes : List UInt8) : (oneFile bytes).contents "c.toml" = .ok bytes := by
  rfl

theorem rooted_oneFile (bytes : List UInt8) : (oneFile bytes).Rooted :=
  Tree.rooted_empty.set rfl (by decide) (.file bytes)

/-- A time of `2 ^ 63` is refused, whatever stood in the file. -/
theorem saveTo_oneFile (bytes : List UInt8) :
    saveTo (oneFile bytes) "c.toml" (withInterval 9223372036854775808) =
      (.error .saving, oneFile []) := by
  rfl

/-- The file of settings with 7 milliseconds is empty after settings with `2 ^ 63` are refused. -/
theorem saveTo_refused_interval :
    (saveTo (oneFile (Text.encode (withInterval 7).text)) "c.toml"
        (withInterval 9223372036854775808)).1 = .error .saving ∧
      (oneFile []).contents "c.toml" = .ok [] ∧ loadFrom (oneFile []) "c.toml" = .ok default := by
  have hlarge : ∃ time ∈ (withInterval 9223372036854775808).times, 2 ^ 63 - 1 < time.toNat :=
    ⟨9223372036854775808, List.mem_cons_self, by decide⟩
  obtain ⟨hiff, hafter⟩ := saveTo_refused (s := withInterval 9223372036854775808)
    (contents_oneFile (Text.encode (withInterval 7).text))
  obtain ⟨-, hcontents, hload, -⟩ := hafter _ (saveTo_oneFile _)
  exact ⟨(hiff (rooted_oneFile _)).2 hlarge, hcontents, hload⟩

/-- Settings with 7 milliseconds are lost when settings with `2 ^ 63` are refused. -/
theorem saveTo_loses_interval :
    loadFrom (oneFile (Text.encode (withInterval 7).text)) "c.toml" = .ok (withInterval 7) ∧
      saveTo (oneFile (Text.encode (withInterval 7).text)) "c.toml"
        (withInterval 9223372036854775808) = (.error .saving, oneFile []) ∧
      (oneFile []).contents "c.toml" ≠
        (oneFile (Text.encode (withInterval 7).text)).contents "c.toml" ∧
      loadFrom (oneFile []) "c.toml" ≠
        loadFrom (oneFile (Text.encode (withInterval 7).text)) "c.toml" := by
  have hsmall : ∀ time ∈ (withInterval 7).times, time.toNat ≤ timeLimit :=
    List.forall_mem_singleton.2 (by decide)
  have hbefore : loadFrom (oneFile (Text.encode (withInterval 7).text)) "c.toml" =
      .ok (withInterval 7) := by
    rw [loadFrom_of_contents (contents_oneFile _), load_text hsmall]
    rfl
  have hafter : loadFrom (oneFile []) "c.toml" = .ok default :=
    (loadFrom_eq_default_iff (contents_oneFile [])).2 load_nil
  have hload : loadFrom (oneFile []) "c.toml" ≠
      loadFrom (oneFile (Text.encode (withInterval 7).text)) "c.toml" := by
    rw [hbefore, hafter]
    decide
  refine ⟨hbefore, saveTo_oneFile _, fun hcontents => hload ?_, hload⟩
  rw [contents_oneFile, contents_oneFile, Except.ok.injEq] at hcontents
  rw [← hcontents]

end VmProbe.Settings
