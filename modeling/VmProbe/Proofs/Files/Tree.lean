/-
VmProbe/Proofs/Files/Tree.lean

What is written to a file is there afterwards.

A path leads through directories, and a file is written where no directory is; so the path leads to
the same place before and after (`walk_set`), where the bytes written last are found
(`find_write`).  A file that was written can be written again (`exists_write_of_write`).
-/
import Mathlib
import VmProbe.Files.Tree

namespace VmProbe.Files.Tree

variable {t t' : Tree} {place other origin : Place} {e : Entry} {path : String}
variable {bytes : List UInt8} {names : List String}

/-! ### Entries -/

theorem entry?_set_self (h : place ≠ []) : entry? (t.set place e) place = some e := by
  unfold entry?
  rw [if_neg h, set, List.find?_cons_of_pos (by simp)]
  rfl

theorem entry?_set_of_ne (h : other ≠ place) : entry? (t.set place e) other = t.entry? other := by
  have hfind : ((place, e) :: t.entries.filter (·.1 ≠ place)).find? (·.1 = other) =
      t.entries.find? (·.1 = other) := by
    rw [List.find?_cons_of_neg (by simpa using h.symm), List.find?_filter]
    congr 1
    funext x
    by_cases hx : x.1 = other
    · simp [hx, h]
    · simp [hx]
  unfold entry?
  rw [set, hfind]

theorem ne_nil_of_not_directory (h : t.entry? place ≠ some .directory) : place ≠ [] := by
  rintro rfl
  exact h rfl

/-! ### Paths -/

/-- A path that leads somewhere does so whatever is put where no directory is. -/
theorem walk_set (hplace : t.entry? place ≠ some .directory) (h : t.walk origin names = .ok other) :
    (t.set place e).walk origin names = .ok other := by
  induction names generalizing origin with
  | nil => exact h
  | cons name names ih =>
    rw [walk] at h ⊢
    rcases horigin : t.entry? origin with - | (bytes | ⟨⟩) <;> rw [horigin] at h
    · cases h
    · cases h
    · -- the path goes on from a directory only, so this is not the place
      have hne : origin ≠ place := by
        rintro rfl
        exact hplace horigin
      rw [entry?_set_of_ne hne, horigin]
      dsimp only at h ⊢
      split_ifs at h ⊢ with hstay hback hlong
      · exact ih h
      · exact ih h
      · exact ih h

theorem place?_set (hplace : t.entry? place ≠ some .directory) (h : t.place? path = .ok other) :
    (t.set place e).place? path = .ok other := by
  rw [place?] at h ⊢
  rcases hcheck : checkPath path with err | ok <;> rw [hcheck] at h
  · cases h
  · exact walk_set hplace h

theorem place?_eq_ok_iff : t.place? path = .ok place ↔
    checkPath path = .ok () ∧ t.walk (t.start path) (parts path) = .ok place := by
  rw [place?]
  rcases checkPath path with err | ⟨⟩
  · constructor
    · nofun
    · nofun
  · exact ⟨fun h => ⟨rfl, h⟩, fun h => h.2⟩

/-- What is found is at the place that the path leads to. -/
theorem find_eq_ok_iff : t.find path = .ok e ↔
    ∃ place, t.place? path = .ok place ∧ t.entry? place = some e := by
  rw [find]
  constructor
  · intro h
    split at h
    · cases h
    · next place hplace =>
      split at h
      · cases h
      · next e' hentry =>
        obtain rfl := Except.ok.inj h
        exact ⟨place, hplace, hentry⟩
  · rintro ⟨place, hplace, hentry⟩
    rw [hplace]
    dsimp only
    rw [hentry]

/-! ### Files -/

theorem contents_eq_ok_iff : t.contents path = .ok bytes ↔ t.find path = .ok (.file bytes) := by
  rw [contents]
  rcases t.find path with err | (bytes' | ⟨⟩)
  · constructor
    · nofun
    · nofun
  · show Except.ok bytes' = .ok bytes ↔ _
    rw [Except.ok.injEq, Except.ok.injEq, Entry.file.injEq]
  · constructor
    · nofun
    · nofun

/-- Writing puts the bytes where the path leads, in a directory that is there. -/
theorem write_eq_ok_iff : t.write path bytes = .ok t' ↔
    ∃ place, t.place? path = .ok place ∧ t.entry? place.dropLast = some .directory ∧
      t.entry? place ≠ some .directory ∧ t.set place (.file bytes) = t' := by
  rw [write]
  constructor
  · intro h
    split at h
    · cases h
    · next place hpath =>
      split at h
      · cases h
      · cases h
      · cases h
      · next hparent hplace => exact ⟨place, hpath, hparent, hplace, Except.ok.inj h⟩
  · rintro ⟨place, hpath, hparent, hplace, rfl⟩
    rw [hpath]
    dsimp only
    rw [hparent]
    split
    · next h => cases h
    · next h => cases h
    · next h => exact absurd h hplace
    · rfl

/-- **What was written is found.** -/
theorem find_write (h : t.write path bytes = .ok t') : t'.find path = .ok (.file bytes) := by
  obtain ⟨place, hpath, -, hplace, rfl⟩ := write_eq_ok_iff.1 h
  have hne := ne_nil_of_not_directory hplace
  rw [find, place?_set hplace hpath]
  dsimp only
  rw [entry?_set_self hne]

/-- What was written can be written again. -/
theorem exists_write_of_write (h : t.write path bytes = .ok t') (bytes' : List UInt8) :
    ∃ t'', t'.write path bytes' = .ok t'' := by
  obtain ⟨place, hpath, hparent, hplace, rfl⟩ := write_eq_ok_iff.1 h
  have hne := ne_nil_of_not_directory hplace
  have hparent' : entry? (t.set place (.file bytes)) place.dropLast = some .directory := by
    have hshorter : place.dropLast ≠ place := by
      refine ne_of_apply_ne List.length ?_
      rw [List.length_dropLast]
      exact (Nat.sub_one_lt (List.length_eq_zero_iff.not.2 hne)).ne
    rw [entry?_set_of_ne hshorter, hparent]
  have hplace' : entry? (t.set place (.file bytes)) place ≠ some .directory := by
    rw [entry?_set_self hne]
    nofun
  exact ⟨_, write_eq_ok_iff.2 ⟨place, place?_set hplace hpath, hparent', hplace', rfl⟩⟩

end VmProbe.Files.Tree
