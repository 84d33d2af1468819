/-
VmProbe/Proofs/Files/Directories.lean

The directories of a path that leads somewhere are there, and making them changes nothing.

A path is its parts with a separator between them (`intercalate_parts`, `parts_intercalate`), and
the directory of a path has the first of these parts (`exists_of_pathsThrough`).  The path leads
through the place of this directory (`walk_append`), which must be a directory for the path to go
on (`directory_of_walk`).

A tree is rooted if whatever there is in it is in a directory.  A path in it leads into a directory
(`Rooted.directory_dropLast`), so every file that is found can be written, and trees stay rooted
when files are written and directories are made.
-/
import Mathlib
import VmProbe.Proofs.Files.Tree

namespace VmProbe.Files

variable {path dir rest : String} {above names xs ys : List String} {t t' : Tree}
variable {origin place : Place} {bytes old : List UInt8}

/-! ### Parts -/

theorem splitParts_eq (cs : List Char) : splitParts cs = cs.splitOn '/' := by
  induction cs with
  | nil => rfl
  | cons c cs ih =>
    rw [splitParts, List.splitOn, List.splitOnP_cons_eq_if_modifyHead, ih, List.splitOn]
    by_cases hc : c = '/'
    · simp [hc]
    · rw [if_neg hc, if_neg (by simpa using hc)]
      rcases hparts : cs.splitOnP (· == '/') with - | ⟨p, ps⟩
      · exact absurd hparts (List.splitOnP_ne_nil _ cs)
      · rfl

theorem slash_not_mem_splitParts {cs p : List Char} (h : p ∈ splitParts cs) : '/' ∉ p := by
  induction cs generalizing p with
  | nil =>
    obtain rfl := List.mem_singleton.1 h
    exact List.not_mem_nil
  | cons c cs ih =>
    rw [splitParts] at h
    split_ifs at h with hc
    · rcases List.mem_cons.1 h with rfl | h
      · exact List.not_mem_nil
      · exact ih h
    · split at h
      · obtain rfl := List.mem_singleton.1 h
        simpa using Ne.symm hc
      · next p' ps hparts =>
        rw [hparts] at ih
        rcases List.mem_cons.1 h with rfl | h
        · have hp' := ih List.mem_cons_self
          simpa [hp'] using Ne.symm hc
        · exact ih (List.mem_cons_of_mem p' h)

theorem slash_not_mem_parts {p : String} (h : p ∈ parts path) : '/' ∉ p.toList := by
  obtain ⟨cs, hcs, rfl⟩ := List.mem_map.1 h
  rw [String.toList_ofList]
  exact slash_not_mem_splitParts hcs

theorem map_toList_parts (path : String) :
    (parts path).map String.toList = path.toList.splitOn '/' := by
  rw [parts, List.map_map, ← splitParts_eq]
  exact (List.map_congr_left fun cs _ => String.toList_ofList).trans (List.map_id _)

/-- A path is its parts with separators between them. -/
theorem intercalate_parts (path : String) : "/".intercalate (parts path) = path := by
  rw [← String.toList_inj, String.toList_intercalate, map_toList_parts]
  exact List.intercalate_splitOn '/'

/-- The parts of a path that is put together are those that it is made of. -/
theorem parts_intercalate (hne : names ≠ []) (h : ∀ p ∈ names, '/' ∉ p.toList) :
    parts ("/".intercalate names) = names := by
  have hsplit : (("/".intercalate names).toList).splitOn '/' = names.map String.toList := by
    rw [String.toList_intercalate]
    exact List.splitOn_intercalate '/' (List.forall_mem_map.2 h) (by simpa using hne)
  rw [← map_toList_parts] at hsplit
  exact List.map_injective_iff.2 (fun _ _ => String.toList_inj.1) hsplit

/-! ### The directory of a path -/

theorem parts_ne_nil (path : String) : parts path ≠ [] := by
  intro h
  have hlength := congrArg List.length (map_toList_parts path)
  rw [h, List.splitOn] at hlength
  exact List.splitOnP_ne_nil _ _ (List.length_eq_zero_iff.1 hlength.symm)

/-- The first of the paths through some parts is what is left of the parts when some at the end are
skipped, and the others are the paths through all parts but the last of these. -/
theorem exists_of_pathsThrough (hnames : ∀ p ∈ names, '/' ∉ p.toList)
    (h : pathsThrough names = dir :: above) :
    ∃ skipped last before, names = skipped ++ last :: before ∧ above = pathsThrough before ∧
      pathsThrough (last :: before) = dir :: above ∧
      (dir = "/" ∨ dir ≠ "" ∧ (parts dir).reverse = last :: before) := by
  fun_induction pathsThrough names with
  | case1 => cases h
  | case2 first =>
    refine ⟨[], first, [], rfl, (List.cons.inj h).2.symm, h, ?_⟩
    obtain ⟨rfl, -⟩ := List.cons.inj h
    split_ifs with hfirst
    · exact .inl rfl
    · refine .inr ⟨hfirst, ?_⟩
      have hparts := parts_intercalate (List.cons_ne_nil first []) hnames
      rw [String.intercalate_singleton] at hparts
      rw [hparts, List.reverse_singleton]
  | case3 last before hne hskip ih =>
    obtain ⟨skipped, last', before', rfl, hrest⟩ :=
      ih (fun p hp => hnames p (List.mem_cons_of_mem last hp)) h
    exact ⟨last :: skipped, last', before', rfl, hrest⟩
  | case4 last before hne hskip ih =>
    have hparts : parts ("/".intercalate (last :: before).reverse) = (last :: before).reverse :=
      parts_intercalate (by simp) fun p hp => hnames p (List.mem_reverse.1 hp)
    obtain ⟨rfl, rfl⟩ := List.cons.inj h
    refine ⟨[], last, before, rfl, rfl, ?_, .inr ⟨fun hempty => ?_, ?_⟩⟩
    · rw [pathsThrough.eq_3 _ _ hne, if_neg hskip]
    · -- the empty path has only one part, which is skipped
      rw [hempty] at hparts
      have hsingle : [""] = last :: before := List.reverse_injective hparts
      exact hskip (.inl (List.cons.inj hsingle).1.symm)
    · rw [hparts, List.reverse_reverse]

/-- The directory of a path is the first of the paths through its own parts, which are the first of
those of the path.  It is empty if the path is only a name. -/
theorem exists_of_parent? (h : parent? path = some dir) :
    dir = "" ∨ ∃ above, ancestors dir = dir :: above ∧
      (dir = "/" ∨ ∃ tail, tail ≠ [] ∧ parts path = parts dir ++ tail) := by
  rw [parent?] at h
  split at h
  · cases h
  · split_ifs at h
    exact .inl (Option.some.inj h).symm
  · next first dir' above hpath =>
    obtain rfl := Option.some.inj h
    have hnames : ∀ p ∈ (parts path).reverse, '/' ∉ p.toList :=
      fun p hp => slash_not_mem_parts (List.mem_reverse.1 hp)
    rw [ancestors] at hpath
    split_ifs at hpath
    obtain ⟨skipped, last, before, hparts, hbefore, -⟩ := exists_of_pathsThrough hnames hpath
    rw [hparts] at hnames
    obtain ⟨skipped', last', before', rfl, -, hthrough, rfl | ⟨hne, hdir⟩⟩ :=
      exists_of_pathsThrough
        (fun p hp => hnames p (List.mem_append_right _ (List.mem_cons_of_mem last hp))) hbefore.symm
    · exact .inr ⟨[], by decide, .inl rfl⟩
    · refine .inr ⟨above, ?_, .inr ⟨(skipped ++ last :: skipped').reverse, by simp, ?_⟩⟩
      · rw [ancestors, if_neg hne, hdir, hthrough]
      · rw [← List.reverse_inj, List.reverse_append, List.reverse_reverse, hdir, hparts,
          List.append_assoc, List.cons_append]

theorem isAbsolute_append (hdir : dir ≠ "") : isAbsolute (dir ++ rest) = isAbsolute dir := by
  rw [isAbsolute, isAbsolute, String.toList_append,
    List.head?_append_of_ne_nil _ (by simpa using hdir)]

namespace Tree

/-! ### Walking -/

theorem checkPath_append (hdir : dir ≠ "") (h : checkPath (dir ++ rest) = .ok ()) :
    checkPath dir = .ok () := by
  rw [checkPath] at h ⊢
  split_ifs at h with hany hempty hlong
  have hany' : ¬dir.toList.any (· = '\x00') := by
    rw [String.toList_append, List.any_append, Bool.or_eq_true] at hany
    exact mt .inl hany
  have hlong' : ¬pathLimit < dir.utf8ByteSize := by
    rw [String.utf8ByteSize_append] at hlong
    omega
  rw [if_neg hany', if_neg hdir, if_neg hlong']

theorem walk_append (xs ys : List String) :
    t.walk origin (xs ++ ys) = (t.walk origin xs).bind fun q => t.walk q ys := by
  induction xs generalizing origin with
  | nil => rfl
  | cons x xs ih =>
    rw [List.cons_append, walk, walk]
    split
    · rfl
    · rfl
    · split_ifs
      · exact ih
      · exact ih
      · rfl
      · exact ih

/-- A path goes on from a directory only. -/
theorem directory_of_walk (hne : names ≠ []) (h : t.walk origin names = .ok place) :
    t.entry? origin = some .directory := by
  rcases names with - | ⟨name, names⟩
  · exact absurd rfl hne
  · rw [walk] at h
    split at h
    · cases h
    · cases h
    · next horigin => exact horigin

/-- The directory of a path that leads somewhere is there. -/
theorem find_parent (h : t.place? path = .ok place) (hparent : parent? path = some dir)
    (hdir : dir ≠ "") : t.find dir = .ok .directory := by
  obtain hempty | ⟨above, -, rfl | ⟨tail, htail, hparts⟩⟩ := exists_of_parent? hparent
  · exact absurd hempty hdir
  · rfl
  · have hpath : path = dir ++ ("/" ++ "/".intercalate tail) := by
      rw [← intercalate_parts path, hparts,
        String.intercalate_append_of_ne_nil (parts_ne_nil dir) htail, intercalate_parts,
        String.append_assoc]
    have hstart : t.start path = t.start dir := by
      rw [start, start, hpath, isAbsolute_append hdir]
    obtain ⟨hcheck, hwalk⟩ := place?_eq_ok_iff.1 h
    rw [hparts, walk_append, hstart] at hwalk
    rcases hplace : t.walk (t.start dir) (parts dir) with e | q <;> rw [hplace] at hwalk
    · cases hwalk
    · have hcheck' : checkPath dir = .ok () := by
        rw [hpath] at hcheck
        exact checkPath_append hdir hcheck
      have hdirectory := directory_of_walk htail hwalk
      exact find_eq_ok_iff.2 ⟨q, place?_eq_ok_iff.2 ⟨hcheck', hplace⟩, hdirectory⟩

/-- A directory that is there stays as it is. -/
theorem ensureDirectory_of_find (h : t.find dir = .ok .directory) :
    t.ensureDirectory dir = .ok t := by
  obtain ⟨place, hplace, hentry⟩ := find_eq_ok_iff.1 h
  have hmake : t.makeDirectory dir = .error .alreadyExists := by
    rw [makeDirectory, hplace]
    dsimp only
    rw [hentry]
  have his : t.isDirectory dir = true := by
    rw [isDirectory, h]
  rw [ensureDirectory, hmake]
  dsimp only
  rw [if_pos his]

/-- Making the directory of a path that leads somewhere changes nothing. -/
theorem makeDirectories_parent (h : t.place? path = .ok place)
    (hparent : parent? path = some dir) : t.makeDirectories dir = (.ok (), t) := by
  by_cases hdir : dir = ""
  · rw [hdir]
    rfl
  · obtain hempty | ⟨above, habove, -⟩ := exists_of_parent? hparent
    · exact absurd hempty hdir
    · rw [makeDirectories, habove, ensureAll,
        ensureDirectory_of_find (find_parent h hparent hdir)]

/-! ### Rooted trees -/

/-- Whatever there is, is in a directory. -/
def Rooted (t : Tree) : Prop :=
  ∀ place e, t.entry? place = some e → t.entry? place.dropLast = some .directory

theorem rooted_empty : empty.Rooted := by
  intro place e h
  unfold entry? at h
  split_ifs at h with hplace
  · rw [hplace]
    rfl
  · cases h

/-- A tree stays rooted when something is put into a directory where none is. -/
theorem Rooted.set (ht : t.Rooted) (hparent : t.entry? place.dropLast = some .directory)
    (hplace : t.entry? place ≠ some .directory) (e : Entry) : (t.set place e).Rooted := by
  have hdirectory : ∀ q, t.entry? q = some .directory →
      entry? (t.set place e) q = some .directory := by
    intro q hq
    have hne : q ≠ place := by
      rintro rfl
      exact hplace hq
    rw [entry?_set_of_ne hne, hq]
  intro q e' h
  by_cases hq : q = place
  · rw [hq]
    exact hdirectory _ hparent
  · rw [entry?_set_of_ne hq] at h
    exact hdirectory _ (ht q e' h)

/-- In a rooted tree, a path leads into a directory. -/
theorem Rooted.directory_dropLast (ht : t.Rooted) (hne : names ≠ [])
    (h : t.walk origin names = .ok place) : t.entry? place.dropLast = some .directory := by
  induction names generalizing origin with
  | nil => exact absurd rfl hne
  | cons name names ih =>
    have horigin := directory_of_walk hne h
    rw [walk, horigin] at h
    dsimp only at h
    rcases names with - | ⟨name', names⟩
    · -- the last part names something in the directory, or leads to one that is in another
      simp only [walk] at h
      split_ifs at h with hstay hback
      · obtain rfl := Except.ok.inj h
        exact ht _ _ horigin
      · obtain rfl := Except.ok.inj h
        exact ht _ _ (ht _ _ horigin)
      · obtain rfl := Except.ok.inj h
        rw [List.dropLast_concat, horigin]
    · split_ifs at h with hstay hback
      · exact ih (List.cons_ne_nil _ _) h
      · exact ih (List.cons_ne_nil _ _) h
      · exact ih (List.cons_ne_nil _ _) h

theorem Rooted.directory_dropLast_of_place? (ht : t.Rooted) (h : t.place? path = .ok place) :
    t.entry? place.dropLast = some .directory :=
  ht.directory_dropLast (parts_ne_nil path) (place?_eq_ok_iff.1 h).2

/-- A file that a path names in a rooted tree can be written. -/
theorem Rooted.write_of_find (ht : t.Rooted) (h : t.find path = .ok (.file old))
    (bytes : List UInt8) : ∃ t', t.write path bytes = .ok t' := by
  obtain ⟨place, hplace, hentry⟩ := find_eq_ok_iff.1 h
  have hfile : t.entry? place ≠ some .directory := by
    rw [hentry]
    nofun
  exact ⟨_, write_eq_ok_iff.2 ⟨place, hplace, ht.directory_dropLast_of_place? hplace, hfile, rfl⟩⟩

theorem Rooted.write (ht : t.Rooted) (h : t.write path bytes = .ok t') : t'.Rooted := by
  obtain ⟨place, -, hparent, hplace, rfl⟩ := write_eq_ok_iff.1 h
  exact ht.set hparent hplace (.file bytes)

theorem Rooted.makeDirectory (ht : t.Rooted) (h : t.makeDirectory path = .ok t') : t'.Rooted := by
  rw [Tree.makeDirectory] at h
  split at h
  · cases h
  · next place hpath =>
    split at h
    · cases h
    · next hplace =>
      obtain rfl := Except.ok.inj h
      refine ht.set (ht.directory_dropLast_of_place? hpath) ?_ .directory
      rw [hplace]
      nofun

theorem Rooted.ensureDirectory (ht : t.Rooted) (h : t.ensureDirectory path = .ok t') :
    t'.Rooted := by
  rw [Tree.ensureDirectory] at h
  split at h
  · next made hmade =>
    obtain rfl := Except.ok.inj h
    exact ht.makeDirectory hmade
  · split_ifs at h
    obtain rfl := Except.ok.inj h
    exact ht

/-- A tree stays rooted while directories are made, also when one of them cannot be. -/
theorem Rooted.ensureAll (ht : t.Rooted) (names : List String) : (t.ensureAll names).2.Rooted := by
  fun_induction Tree.ensureAll t names with
  | case1 => exact ht
  | case2 path above made hmade => exact ht.ensureDirectory hmade
  | case3 path above hmissing e made habove ih =>
    rw [habove] at ih
    exact ih
  | case4 path above hmissing made habove last hlast ih =>
    rw [habove] at ih
    exact ih.ensureDirectory hlast
  | case5 path above hmissing made habove e hlast ih =>
    rw [habove] at ih
    exact ih
  | case6 => exact ht

end Tree

end VmProbe.Files
